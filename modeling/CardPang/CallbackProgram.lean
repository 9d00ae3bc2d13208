import CardPang.LabelledRun

/-!
# Programs with callbacks

A program runs to its end on its client. A call it makes to the server only leaves
the callback behind; the server executes the call at some later step, at which its
answer reaches the client, and the callback runs when the answer is delivered, at some
step after that. Each call keeps the answers that led to it, its `trail`.
-/
namespace CardPang.CallbackProgram
open LabelledRun

variable {Req : Type} {Reply : Req → Type} {A σ S O U ι : Type}

/-- `act` changes the client's state, `read` looks at it, `call` sends a request
and goes on at once. -/
inductive Prog (Reply : Req → Type) (A σ : Type)
  | done
  | trap
  | act (a : A) (next : Prog Reply A σ)
  | read (k : σ → Prog Reply A σ)
  | call (r : Req) (k : Reply r → Prog Reply A σ) (next : Prog Reply A σ)

def Prog.andThen : Prog Reply A σ → Prog Reply A σ → Prog Reply A σ
  | .done, q => q
  | .trap, _ => .trap
  | .act a p, q => .act a (p.andThen q)
  | .read k, q => .read fun s => (k s).andThen q
  | .call r k p, q => .call r k (p.andThen q)

structure Call (Reply : Req → Type) (A σ : Type) where
  request : Req
  callback : Reply request → Prog Reply A σ
  trail : List (Σ r, Reply r)

structure Arrival (Reply : Req → Type) (A σ : Type) where
  call : Call Reply A σ
  reply : Reply call.request

def Arrival.answer (a : Arrival Reply A σ) : Σ r, Reply r := ⟨a.call.request, a.reply⟩

def Arrival.trail (a : Arrival Reply A σ) : List (Σ r, Reply r) := a.call.trail ++ [a.answer]

theorem Arrival.eq_answer {a : Arrival Reply A σ} {x : Σ r, Reply r}
    (h : a.trail.getLast? = some x) : x = a.answer := by
  rw [Arrival.trail, List.getLast?_concat] at h
  exact (Option.some.inj h).symm

/-- The final state and the calls made, or nothing if the program traps. -/
def Prog.exec (act : A → σ → σ) (trail : List (Σ r, Reply r)) :
    Prog Reply A σ → σ → Option (σ × List (Call Reply A σ))
  | .done, s => some (s, [])
  | .trap, _ => none
  | .act a p, s => p.exec act trail (act a s)
  | .read k, s => (k s).exec act trail s
  | .call r k p, s => (p.exec act trail s).map fun x => (x.1, ⟨r, k, trail⟩ :: x.2)

/-- How actions, answers and requests take effect, and what each input of a user
starts. The server executes a request with a given outcome; it may leave it without
an answer. What the client makes of the answer may depend on the requests that wait
there, the served one among them. -/
structure Platform (Reply : Req → Type) (A σ S O U : Type) where
  act : A → σ → σ
  receive : (r : Req) → Reply r → σ → σ
  serve : O → (r : Req) → List Req → S → Option (S × Option (Reply r))
  handler : U → Prog Reply A σ

structure Client (Reply : Req → Type) (A σ : Type) where
  state : σ
  waiting : List (Call Reply A σ)
  arrived : List (Arrival Reply A σ)

structure World (Reply : Req → Type) (A σ S ι : Type) where
  server : S
  client : ι → Client Reply A σ

inductive Event (O U ι : Type)
  | input (i : ι) (u : U)
  | serve (i : ι) (n : ℕ) (o : O)
  | deliver (i : ι) (n : ℕ)
  deriving DecidableEq, Repr

def Client.start (s : σ) : Client Reply A σ := ⟨s, [], []⟩

def Client.Quiet (k : Client Reply A σ) : Prop := k.waiting = [] ∧ k.arrived = []

/-- The requests that wait for an answer. -/
def Client.requests (k : Client Reply A σ) : List Req := k.waiting.map Call.request

/-- The callback of the call has not run yet. -/
def Client.InFlight (k : Client Reply A σ) (c : Call Reply A σ) : Prop :=
  c ∈ k.waiting ∨ ∃ a ∈ k.arrived, a.call = c

/-- The answer of a call joins those to be delivered. -/
def Client.answered (k : Client Reply A σ) (n : ℕ) (c : Call Reply A σ) :
    Option (Reply c.request) → Client Reply A σ
  | some reply =>
    { k with waiting := k.waiting.eraseIdx n, arrived := k.arrived ++ [⟨c, reply⟩] }
  | none => { k with waiting := k.waiting.eraseIdx n }

section World

variable [DecidableEq ι]

def World.set (w : World Reply A σ S ι) (i : ι) (c : Client Reply A σ) : World Reply A σ S ι :=
  { w with client := Function.update w.client i c }

/-- A program runs to its end on one client. -/
def World.resume (P : Platform Reply A σ S O U) (w : World Reply A σ S ι) (i : ι)
    (trail : List (Σ r, Reply r)) (p : Prog Reply A σ) : Option (World Reply A σ S ι) :=
  (p.exec P.act trail (w.client i).state).map fun x =>
    w.set i { w.client i with state := x.1, waiting := (w.client i).waiting ++ x.2 }

def World.served (w : World Reply A σ S ι) (i : ι) (n : ℕ) (c : Call Reply A σ)
    (answer : S × Option (Reply c.request)) : World Reply A σ S ι :=
  { w.set i ((w.client i).answered n c answer.2) with server := answer.1 }

def World.received (P : Platform Reply A σ S O U) (w : World Reply A σ S ι) (i : ι) (n : ℕ)
    (a : Arrival Reply A σ) : World Reply A σ S ι :=
  w.set i { w.client i with
    state := P.receive a.call.request a.reply (w.client i).state
    arrived := (w.client i).arrived.eraseIdx n }

/-- What an event leads to; `none` means that the client traps. -/
inductive Outcome (P : Platform Reply A σ S O U) (w : World Reply A σ S ι) :
    Event O U ι → Option (World Reply A σ S ι) → Prop
  | input (i : ι) (u : U) : Outcome P w (.input i u) (w.resume P i [] (P.handler u))
  | serve {i : ι} {n : ℕ} {o : O} {c : Call Reply A σ} {answer : S × Option (Reply c.request)}
      (hc : (w.client i).waiting[n]? = some c)
      (hs : P.serve o c.request (w.client i).requests w.server = some answer) :
      Outcome P w (.serve i n o) (some (w.served i n c answer))
  | deliver {i : ι} {n : ℕ} {a : Arrival Reply A σ} (ha : (w.client i).arrived[n]? = some a) :
      Outcome P w (.deliver i n)
        ((w.received P i n a).resume P i a.trail (a.call.callback a.reply))

def Step (P : Platform Reply A σ S O U) (w : World Reply A σ S ι) (e : Event O U ι)
    (w' : World Reply A σ S ι) : Prop :=
  Outcome P w e (some w')

def Traps (P : Platform Reply A σ S O U) (w : World Reply A σ S ι) (e : Event O U ι) : Prop :=
  Outcome P w e none

/-- The step function behind `Step`. -/
def World.next (P : Platform Reply A σ S O U) (w : World Reply A σ S ι) :
    Event O U ι → Option (World Reply A σ S ι)
  | .input i u => w.resume P i [] (P.handler u)
  | .serve i n o => do
    let c ← (w.client i).waiting[n]?
    let answer ← P.serve o c.request (w.client i).requests w.server
    some (w.served i n c answer)
  | .deliver i n => do
    let a ← (w.client i).arrived[n]?
    (w.received P i n a).resume P i a.trail (a.call.callback a.reply)

theorem World.next_step {P : Platform Reply A σ S O U} {w w' : World Reply A σ S ι}
    {e : Event O U ι} (h : w.next P e = some w') : Step P w e w' := by
  cases e with
  | input i u =>
    rw [Step, ← h]
    exact Outcome.input i u
  | serve i n o =>
    obtain ⟨c, hc, h⟩ := Option.bind_eq_some_iff.mp h
    obtain ⟨answer, hs, h⟩ := Option.bind_eq_some_iff.mp h
    obtain rfl := Option.some.inj h
    exact Outcome.serve hc hs
  | deliver i n =>
    obtain ⟨a, ha, h⟩ := Option.bind_eq_some_iff.mp h
    rw [Step, ← h]
    exact Outcome.deliver ha

theorem Step.next {P : Platform Reply A σ S O U} {w w' : World Reply A σ S ι}
    {e : Event O U ι} (h : Step P w e w') : w.next P e = some w' := by
  unfold Step at h
  generalize hr : some w' = r at h
  cases h with
  | input i u => exact rfl
  | serve hc hs => simp [World.next, hc, hs]
  | deliver ha => simp [World.next, ha]

theorem World.next_run {P : Platform Reply A σ S O U} {w w' : World Reply A σ S ι}
    {es : List (Event O U ι)} (h : es.foldlM (World.next P) w = some w') :
    Run (Step P) w es w' := by
  induction es generalizing w with
  | nil =>
    obtain rfl := Option.some.inj h
    exact Run.nil w
  | cons e es ih =>
    rw [List.foldlM_cons] at h
    obtain ⟨w₁, h₁, hrest⟩ := Option.bind_eq_some_iff.mp h
    exact Run.cons (World.next_step h₁) (ih hrest)

end World

section Conforms

variable (actOk : List (Σ r, Reply r) → A → Prop) (callOk : List (Σ r, Reply r) → Req → Prop)

/-- Whatever the answers are, each action and each call is one that its trail allows. -/
def Conforms : Prog Reply A σ → List (Σ r, Reply r) → Prop
  | .done, _ => True
  | .trap, _ => False
  | .act a p, t => actOk t a ∧ Conforms p t
  | .read k, t => ∀ s, Conforms (k s) t
  | .call r k p, t =>
    callOk t r ∧ (∀ reply, Conforms (k reply) (t ++ [⟨r, reply⟩])) ∧ Conforms p t

structure Call.Conforms (c : Call Reply A σ) : Prop where
  request : callOk c.trail c.request
  callback : ∀ reply, CallbackProgram.Conforms actOk callOk (c.callback reply)
    (c.trail ++ [⟨c.request, reply⟩])

def World.Conforming (w : World Reply A σ S ι) : Prop :=
  ∀ i c, (w.client i).InFlight c → c.Conforms actOk callOk

variable {actOk callOk}

theorem Conforms.andThen {p q : Prog Reply A σ} {t : List (Σ r, Reply r)}
    (hp : Conforms actOk callOk p t) (hq : Conforms actOk callOk q t) :
    Conforms actOk callOk (p.andThen q) t := by
  induction p with
  | done => exact hq
  | trap => exact hp.elim
  | act a p ih => exact ⟨hp.1, ih hp.2⟩
  | read k ih => exact fun s => ih s (hp s)
  | call r k p _ ih => exact ⟨hp.1, hp.2.1, ih hp.2.2⟩

/-- A conforming program does not trap, takes only allowed actions and makes only
conforming calls. -/
theorem Conforms.exec {p : Prog Reply A σ} {t : List (Σ r, Reply r)} (act : A → σ → σ)
    (h : Conforms actOk callOk p t) (s : σ) :
    ∃ (as : List A) (cs : List (Call Reply A σ)), p.exec act t s = some (as.foldl (fun s a => act a s) s, cs) ∧
      (∀ a ∈ as, actOk t a) ∧ ∀ c ∈ cs, c.trail = t ∧ c.Conforms actOk callOk := by
  induction p generalizing s with
  | done => exact ⟨[], [], rfl, by simp, by simp⟩
  | trap => exact h.elim
  | act a p ih =>
    obtain ⟨as, cs, he, has, hcs⟩ := ih h.2 (act a s)
    exact ⟨a :: as, cs, he, List.forall_mem_cons.mpr ⟨h.1, has⟩, hcs⟩
  | read k ih => exact ih s (h s) s
  | call r k p _ ih =>
    obtain ⟨as, cs, he, has, hcs⟩ := ih h.2.2 s
    refine ⟨as, ⟨r, k, t⟩ :: cs, by simp [Prog.exec, he], has, ?_⟩
    exact List.forall_mem_cons.mpr ⟨⟨rfl, h.1, h.2.1⟩, hcs⟩

end Conforms

section Resumed

variable {P : Platform Reply A σ S O U} {w w' : World Reply A σ S ι}
  {actOk : List (Σ r, Reply r) → A → Prop} {callOk : List (Σ r, Reply r) → Req → Prop}
  {i j : ι} {t : List (Σ r, Reply r)} {a : Arrival Reply A σ} {c : Call Reply A σ}

/-- All that a conforming program can have done when it has run on a client. -/
structure Resumed (P : Platform Reply A σ S O U)
    (actOk : List (Σ r, Reply r) → A → Prop) (callOk : List (Σ r, Reply r) → Req → Prop)
    (i : ι) (trail : List (Σ r, Reply r)) (w w' : World Reply A σ S ι) : Prop where
  server : w'.server = w.server
  others : ∀ j, j ≠ i → w'.client j = w.client j
  arrived : (w'.client i).arrived = (w.client i).arrived
  acts : ∃ as : List A, (∀ a ∈ as, actOk trail a) ∧
    (w'.client i).state = as.foldl (fun s a => P.act a s) (w.client i).state
  calls : ∃ cs, (∀ c ∈ cs, c.trail = trail ∧ c.Conforms actOk callOk) ∧
    (w'.client i).waiting = (w.client i).waiting ++ cs

/-- What holds of a client's state and is kept by every allowed action holds after
the program. -/
theorem Resumed.invariant (h : Resumed P actOk callOk i t w w')
    {I : σ → Prop} (h0 : I (w.client i).state) (hact : ∀ s a, actOk t a → I s → I (P.act a s)) :
    I (w'.client i).state := by
  obtain ⟨as, has, hs⟩ := h.acts
  rw [hs]
  clear hs
  generalize (w.client i).state = s at h0
  induction as generalizing s with
  | nil => exact h0
  | cons a as ih =>
    obtain ⟨ha, has⟩ := List.forall_mem_cons.mp has
    exact ih has _ (hact s a ha h0)

theorem Resumed.mem_arrived (h : Resumed P actOk callOk i t w w')
    (ha : a ∈ (w'.client j).arrived) : a ∈ (w.client j).arrived := by
  by_cases hj : j = i
  · subst hj
    rwa [h.arrived] at ha
  · rwa [h.others j hj] at ha

theorem Resumed.mem_waiting (h : Resumed P actOk callOk i t w w')
    (hc : c ∈ (w'.client j).waiting) :
    c ∈ (w.client j).waiting ∨ (j = i ∧ c.trail = t ∧ c.Conforms actOk callOk) := by
  by_cases hj : j = i
  · subst hj
    obtain ⟨cs, hcs, hwait⟩ := h.calls
    rw [hwait] at hc
    exact (List.mem_append.mp hc).imp_right fun hc => ⟨rfl, hcs c hc⟩
  · rw [h.others j hj] at hc
    exact Or.inl hc

end Resumed

section Step

variable [DecidableEq ι] {P : Platform Reply A σ S O U} {w w' : World Reply A σ S ι}
  {e : Event O U ι} {actOk : List (Σ r, Reply r) → A → Prop}
  {callOk : List (Σ r, Reply r) → Req → Prop}

@[simp] theorem World.set_client_self (w : World Reply A σ S ι) (i : ι)
    (c : Client Reply A σ) : (w.set i c).client i = c := by
  simp [World.set]

theorem World.set_client_of_ne (w : World Reply A σ S ι) {i j : ι} (h : j ≠ i)
    (c : Client Reply A σ) : (w.set i c).client j = w.client j := by
  simp [World.set, h]

theorem Conforms.resume {p : Prog Reply A σ} {t : List (Σ r, Reply r)}
    (h : Conforms actOk callOk p t) (P : Platform Reply A σ S O U) (w : World Reply A σ S ι)
    (i : ι) : ∃ w', w.resume P i t p = some w' ∧ Resumed P actOk callOk i t w w' := by
  obtain ⟨as, cs, he, has, hcs⟩ := h.exec P.act (w.client i).state
  refine ⟨_, by rw [World.resume, he]; rfl, ?_⟩
  exact ⟨rfl, fun j hj => w.set_client_of_ne hj _, by simp, ⟨as, has, by simp⟩,
    ⟨cs, hcs, by simp⟩⟩

theorem Client.answered_waiting (k : Client Reply A σ) (n : ℕ) (c : Call Reply A σ)
    (answer : Option (Reply c.request)) :
    (k.answered n c answer).waiting = k.waiting.eraseIdx n := by
  cases answer <;> rfl

theorem Client.answered_state (k : Client Reply A σ) (n : ℕ) (c : Call Reply A σ)
    (answer : Option (Reply c.request)) : (k.answered n c answer).state = k.state := by
  cases answer <;> rfl

theorem Client.mem_answered_arrived {k : Client Reply A σ} {n : ℕ} {c : Call Reply A σ}
    {answer : Option (Reply c.request)} {a : Arrival Reply A σ}
    (h : a ∈ (k.answered n c answer).arrived) :
    a ∈ k.arrived ∨ ∃ reply, answer = some reply ∧ a = ⟨c, reply⟩ := by
  cases answer with
  | none => exact Or.inl h
  | some reply =>
    rcases List.mem_append.mp h with h | h
    · exact Or.inl h
    · exact Or.inr ⟨reply, rfl, List.mem_singleton.mp h⟩

/-- Everything a step can do in a conforming world. -/
inductive StepEffect (P : Platform Reply A σ S O U)
    (actOk : List (Σ r, Reply r) → A → Prop) (callOk : List (Σ r, Reply r) → Req → Prop)
    (w : World Reply A σ S ι) : Event O U ι → World Reply A σ S ι → Prop
  | input {i : ι} {u : U} {w' : World Reply A σ S ι}
      (resumed : Resumed P actOk callOk i [] w w') :
      StepEffect P actOk callOk w (.input i u) w'
  | serve {i : ι} {n : ℕ} {o : O} {c : Call Reply A σ} {answer : S × Option (Reply c.request)}
      (waiting : c ∈ (w.client i).waiting) (at_n : (w.client i).waiting[n]? = some c)
      (served : P.serve o c.request (w.client i).requests w.server = some answer) :
      StepEffect P actOk callOk w (.serve i n o) (w.served i n c answer)
  | deliver {i : ι} {n : ℕ} {a : Arrival Reply A σ} {w' : World Reply A σ S ι}
      (arrived : a ∈ (w.client i).arrived) (at_n : (w.client i).arrived[n]? = some a)
      (resumed : Resumed P actOk callOk i a.trail (w.received P i n a) w') :
      StepEffect P actOk callOk w (.deliver i n) w'

section Frame

variable {i j : ι} {n : ℕ} {a : Arrival Reply A σ} {c c' : Call Reply A σ}
  {answer : S × Option (Reply c.request)}

theorem World.received_state :
    ((w.received P i n a).client i).state =
      P.receive a.call.request a.reply (w.client i).state := by
  simp [World.received]

theorem World.received_client_of_ne (h : j ≠ i) :
    (w.received P i n a).client j = w.client j :=
  w.set_client_of_ne h _

theorem World.served_client_of_ne (h : j ≠ i) :
    (w.served i n c answer).client j = w.client j :=
  w.set_client_of_ne h _

theorem World.served_client_self :
    (w.served i n c answer).client i = (w.client i).answered n c answer.2 :=
  w.set_client_self i _

theorem World.served_state : ((w.served i n c answer).client j).state = (w.client j).state := by
  by_cases h : j = i
  · subst h
    rw [World.served_client_self, Client.answered_state]
  · rw [World.served_client_of_ne h]

/-- An answer to be delivered is an old one or the answer of the call just served. -/
theorem World.mem_served_arrived
    (h : a ∈ ((w.served i n c answer).client j).arrived) :
    a ∈ (w.client j).arrived ∨ ∃ reply, j = i ∧ answer.2 = some reply ∧ a = ⟨c, reply⟩ := by
  by_cases hj : j = i
  · subst hj
    rw [World.served_client_self] at h
    rcases Client.mem_answered_arrived h with h | ⟨reply, hr, ha⟩
    · exact Or.inl h
    · exact Or.inr ⟨reply, rfl, hr, ha⟩
  · rw [World.served_client_of_ne hj] at h
    exact Or.inl h

theorem World.mem_served_waiting (h : c' ∈ ((w.served i n c answer).client j).waiting) :
    c' ∈ (w.client j).waiting := by
  by_cases hj : j = i
  · subst hj
    rw [World.served_client_self, Client.answered_waiting] at h
    exact List.mem_of_mem_eraseIdx h
  · rwa [World.served_client_of_ne hj] at h

theorem World.mem_received_arrived {b : Arrival Reply A σ}
    (h : b ∈ ((w.received P i n a).client j).arrived) : b ∈ (w.client j).arrived := by
  by_cases hj : j = i
  · subst hj
    simp only [World.received, World.set_client_self] at h
    exact List.mem_of_mem_eraseIdx h
  · rwa [World.received_client_of_ne hj] at h

theorem World.received_waiting :
    ((w.received P i n a).client j).waiting = (w.client j).waiting := by
  by_cases hj : j = i
  · subst hj
    simp [World.received]
  · rw [World.received_client_of_ne hj]

/-- The server and the arrival of an answer bring no new call. -/
theorem World.inFlight_of_served (hn : (w.client i).waiting[n]? = some c)
    (h : ((w.served i n c answer).client j).InFlight c') : (w.client j).InFlight c' := by
  rcases h with h | ⟨a, ha, rfl⟩
  · exact Or.inl (World.mem_served_waiting h)
  · rcases World.mem_served_arrived ha with ha | ⟨reply, rfl, -, rfl⟩
    · exact Or.inr ⟨a, ha, rfl⟩
    · exact Or.inl (List.mem_of_getElem? hn)

theorem World.inFlight_of_received (h : ((w.received P i n a).client j).InFlight c) :
    (w.client j).InFlight c := by
  rcases h with h | ⟨b, hb, rfl⟩
  · rw [World.received_waiting] at h
    exact Or.inl h
  · exact Or.inr ⟨b, World.mem_received_arrived hb, rfl⟩

end Frame

section Client

variable {i : ι} {n : ℕ}

/-- What a program that has run to its end leaves on its client. -/
theorem World.resume_client {t : List (Σ r, Reply r)} {p : Prog Reply A σ}
    (h : w.resume P i t p = some w') :
    ∃ s' cs, p.exec P.act t (w.client i).state = some (s', cs) ∧
      w'.client i =
        { w.client i with state := s', waiting := (w.client i).waiting ++ cs } := by
  obtain ⟨x, hx, rfl⟩ := Option.map_eq_some_iff.mp h
  exact ⟨x.1, x.2, hx, w.set_client_self i _⟩

theorem Step.input_client {u : U} (h : Step P w (.input i u) w') :
    ∃ s' cs, (P.handler u).exec P.act [] (w.client i).state = some (s', cs) ∧
      w'.client i =
        { w.client i with state := s', waiting := (w.client i).waiting ++ cs } := by
  unfold Step at h
  generalize hr : some w' = r at h
  cases h with
  | input _ _ => exact World.resume_client hr.symm

theorem Step.serve_client {o : O} (h : Step P w (.serve i n o) w') :
    ∃ c answer, (w.client i).waiting[n]? = some c ∧
      P.serve o c.request (w.client i).requests w.server = some answer ∧
      w'.client i = (w.client i).answered n c answer.2 := by
  unfold Step at h
  generalize hr : some w' = r at h
  cases h with
  | @serve _ _ _ c answer hc hs =>
    obtain rfl := Option.some.inj hr
    exact ⟨c, answer, hc, hs, World.served_client_self⟩

theorem Step.deliver_client (h : Step P w (.deliver i n) w') :
    ∃ a s' cs, (w.client i).arrived[n]? = some a ∧
      (a.call.callback a.reply).exec P.act a.trail
        (P.receive a.call.request a.reply (w.client i).state) = some (s', cs) ∧
      (w'.client i).state = s' := by
  unfold Step at h
  generalize hr : some w' = r at h
  cases h with
  | @deliver _ _ a ha =>
    obtain ⟨s', cs, hexec, hclient⟩ := World.resume_client hr.symm
    rw [World.received_state] at hexec
    exact ⟨a, s', cs, ha, hexec, by rw [hclient]⟩

end Client

/-- In a conforming world only an input can trap, and every step has one of the three
effects. -/
theorem World.Conforming.outcome {r : Option (World Reply A σ S ι)}
    (hw : w.Conforming actOk callOk)
    (hinput : ∀ i u, e = .input i u → Conforms actOk callOk (P.handler u) [])
    (h : Outcome P w e r) : ∃ w', r = some w' ∧ StepEffect P actOk callOk w e w' := by
  cases h with
  | input i u =>
    obtain ⟨w', he, hr⟩ := (hinput i u rfl).resume P w i
    exact ⟨w', he, .input hr⟩
  | serve hc hs => exact ⟨_, rfl, .serve (List.mem_of_getElem? hc) hc hs⟩
  | @deliver i n a ha =>
    have hcall := hw i a.call (Or.inr ⟨a, List.mem_of_getElem? ha, rfl⟩)
    obtain ⟨w', he, hr⟩ := (hcall.callback a.reply).resume P (w.received P i n a) i
    exact ⟨w', he, .deliver (List.mem_of_getElem? ha) ha hr⟩

section Effect

variable {i j : ι} {a : Arrival Reply A σ} {c : Call Reply A σ}

/-- The call comes from the program that the event runs on the client. -/
inductive MadeBy (w : World Reply A σ S ι) (i : ι) (c : Call Reply A σ) : Event O U ι → Prop
  | input {u : U} (trail : c.trail = []) : MadeBy w i c (.input i u)
  | callback {n : ℕ} {a : Arrival Reply A σ} (arrived : a ∈ (w.client i).arrived)
      (at_n : (w.client i).arrived[n]? = some a) (trail : c.trail = a.trail) :
    MadeBy w i c (.deliver i n)

/-- The server gives the answer at this event. -/
inductive AnsweredBy (P : Platform Reply A σ S O U) (w w' : World Reply A σ S ι) (i : ι) :
    Arrival Reply A σ → Event O U ι → Prop
  | serve {n : ℕ} {o : O} {c : Call Reply A σ} {reply : Reply c.request}
      (waiting : c ∈ (w.client i).waiting) (at_n : (w.client i).waiting[n]? = some c)
      (served : P.serve o c.request (w.client i).requests w.server =
        some (w'.server, some reply)) :
    AnsweredBy P w w' i ⟨c, reply⟩ (.serve i n o)

theorem StepEffect.mem_waiting (h : StepEffect P actOk callOk w e w')
    (hc : c ∈ (w'.client j).waiting) :
    c ∈ (w.client j).waiting ∨ (MadeBy w j c e ∧ c.Conforms actOk callOk) := by
  cases h with
  | input hr =>
    rcases hr.mem_waiting hc with hc | ⟨rfl, ht, hc⟩
    · exact Or.inl hc
    · exact Or.inr ⟨.input ht, hc⟩
  | serve _ _ _ => exact Or.inl (World.mem_served_waiting hc)
  | deliver ha hn hr =>
    rcases hr.mem_waiting hc with hc | ⟨rfl, ht, hc⟩
    · rw [World.received_waiting] at hc
      exact Or.inl hc
    · exact Or.inr ⟨.callback ha hn ht, hc⟩

theorem StepEffect.mem_arrived (h : StepEffect P actOk callOk w e w')
    (ha : a ∈ (w'.client j).arrived) :
    a ∈ (w.client j).arrived ∨ AnsweredBy P w w' j a e := by
  cases h with
  | input hr => exact Or.inl (hr.mem_arrived ha)
  | @serve i n o c answer hwait hn hs =>
    rcases World.mem_served_arrived ha with ha | ⟨reply, rfl, hreply, rfl⟩
    · exact Or.inl ha
    · obtain ⟨b, ans⟩ := answer
      obtain rfl : ans = some reply := hreply
      exact Or.inr (.serve hwait hn hs)
  | deliver _ _ hr => exact Or.inl (World.mem_received_arrived (hr.mem_arrived ha))

/-- A call in flight after a step was in flight before, or the step has just made it. -/
theorem StepEffect.inFlight (h : StepEffect P actOk callOk w e w')
    (hc : (w'.client j).InFlight c) :
    (w.client j).InFlight c ∨ (MadeBy w j c e ∧ c.Conforms actOk callOk) := by
  rcases hc with hc | ⟨a, ha, rfl⟩
  · exact (h.mem_waiting hc).imp_left Or.inl
  · left
    rcases h.mem_arrived ha with ha | ⟨hwait, -, -⟩
    · exact Or.inr ⟨a, ha, rfl⟩
    · exact Or.inl hwait

theorem StepEffect.conforming (h : StepEffect P actOk callOk w e w')
    (hw : w.Conforming actOk callOk) : w'.Conforming actOk callOk := by
  intro j c hc
  rcases h.inFlight hc with hc | ⟨-, hc⟩
  · exact hw j c hc
  · exact hc

/-- The server changes only when it executes a request. -/
theorem StepEffect.server (h : StepEffect P actOk callOk w e w') :
    w'.server = w.server ∨ ∃ i n o c answer, e = .serve i n o ∧ c ∈ (w.client i).waiting ∧
      (w.client i).waiting[n]? = some c ∧
      P.serve o c.request (w.client i).requests w.server = some (w'.server, answer) := by
  cases h with
  | input hr => exact Or.inl hr.server
  | @serve i n o c answer hwait hn hs => exact Or.inr ⟨i, n, o, c, answer.2, rfl, hwait, hn, hs⟩
  | deliver _ _ hr => exact Or.inl hr.server

/-- The state of a client changes only when a program runs on it. -/
theorem StepEffect.state (h : StepEffect P actOk callOk w e w') (j : ι) :
    (w'.client j).state = (w.client j).state ∨
    (∃ u, e = .input j u ∧ Resumed P actOk callOk j [] w w') ∨
    ∃ n a, e = .deliver j n ∧ a ∈ (w.client j).arrived ∧ (w.client j).arrived[n]? = some a ∧
      Resumed P actOk callOk j a.trail (w.received P j n a) w' := by
  cases h with
  | @input i u _ hr =>
    by_cases hj : j = i
    · subst hj
      exact Or.inr (Or.inl ⟨u, rfl, hr⟩)
    · exact Or.inl (by rw [hr.others j hj])
  | serve _ _ _ => exact Or.inl World.served_state
  | @deliver i n a _ ha hn hr =>
    by_cases hj : j = i
    · subst hj
      exact Or.inr (Or.inr ⟨n, a, rfl, ha, hn, hr⟩)
    · exact Or.inl (by rw [hr.others j hj, World.received_client_of_ne hj])

end Effect

end Step

end CardPang.CallbackProgram
