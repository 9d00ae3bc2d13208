import CardPang.OwnAccount
import CardPang.UserNode

/-!
# The reads of a device in the database client

While the app runs, the client of each device takes up the writes that the device makes and
sees them answered. What it computes for a read is then what the read is answered with.
-/
namespace CardPang.HomeController
open CallbackProgram Firebase LabelledRun Service Database

/-- The server answers the writes of a device in the order in which they were made. -/
def InOrder {ι : Type} (w : HomeWorld ι) (e : HomeEvent ι) : Prop :=
  ∀ i n o r, e = .serve i n o → (w.client i).requests[n]? = some r → (repoEvent r).isSome →
    ∀ earlier ∈ (w.client i).requests.take n, repoEvent earlier = none

section Client

variable {repo : FRepo Value} {requests rs : List Request} {r : Request} {n : ℕ}

/-- The client has followed the device, and keeps the writes that wait there. -/
structure Mirrors (requests : List Request) (repo : FRepo Value) : Prop where
  reached : ∃ evs, Run FRepo.Step FRepo.init evs repo ∧ ∀ e ∈ evs, e.Shallow
  app : ∀ r ∈ requests, AppRequest r
  pending : repo.pending.map FWriteRecord.writes = requests.filterMap requestNodes

theorem Mirrors.numbered (h : Mirrors requests repo) : repo.Numbered := by
  obtain ⟨evs, hrun, -⟩ := h.reached
  exact Run.invariant FRepo.init_numbered (fun _ _ _ hn hs => hn.step hs) hrun

theorem AppRequest.write (hr : AppRequest r) {e : RepoEvent Value} (he : repoEvent r = some e) :
    e.Shallow ∧ ∃ path write, e.write = some (path, write) := by
  cases hr with
  | newUser uid email fullname =>
    rw [repoEvent_newUser] at he
    obtain rfl := Option.some.inj he
    refine ⟨?_, _, _, rfl⟩
    intro x hx
    simp only [List.mem_cons, List.not_mem_nil, or_false] at hx
    obtain rfl | rfl | rfl := hx
    · exact ⟨"email", rfl⟩
    · exact ⟨"fullname", rfl⟩
    · exact ⟨"hasSeenOnboarding", rfl⟩
  | seen uid =>
    obtain rfl := Option.some.inj he
    exact ⟨trivial, _, _, rfl⟩
  | read event _ _ =>
    rw [event] at he
    cases he

theorem Mirrors.reach (h : Mirrors requests repo) {e : RepoEvent Value} {repo' : FRepo Value}
    (hs : FRepo.Step repo e repo') (he : e.Shallow) :
    ∃ evs, Run FRepo.Step FRepo.init evs repo' ∧ ∀ e ∈ evs, e.Shallow := by
  obtain ⟨evs, hrun, hshallow⟩ := h.reached
  refine ⟨evs ++ [e], Run.snoc hrun hs, ?_⟩
  intro e' he'
  cases List.mem_append.mp he' with
  | inl he' => exact hshallow e' he'
  | inr he' => rwa [List.mem_singleton.mp he']

/-- The client takes up a request. -/
theorem Mirrors.take_up_one (h : Mirrors requests repo) (hr : AppRequest r) :
    ∃ repo', Run FRepo.Step repo (repoEvent r).toList repo' ∧ Mirrors (requests ++ [r]) repo' := by
  have happ : ∀ r' ∈ requests ++ [r], AppRequest r' := by
    intro r' hr'
    cases List.mem_append.mp hr' with
    | inl hr' => exact h.app r' hr'
    | inr hr' => rwa [List.mem_singleton.mp hr']
  cases he : repoEvent r with
  | none =>
    refine ⟨repo, Run.nil repo, h.reached, happ, ?_⟩
    have hnodes : requestNodes r = none := by rw [requestNodes, he]; rfl
    simp [h.pending, hnodes]
  | some e =>
    obtain ⟨hshallow, path, write, hw⟩ := hr.write he
    have hs : FRepo.Step repo e (repo.written path write) := FRepo.step_write h.numbered hw
    refine ⟨_, Run.one hs, h.reach hs hshallow, happ, ?_⟩
    have hnodes : requestNodes r = some (write.nodesAt path) := by
      rw [requestNodes, he, Option.bind_some, RepoEvent.nodes, hw]
      rfl
    change (repo.pending ++ [_]).map _ = _
    rw [List.map_append, h.pending, List.filterMap_append]
    simp only [List.map_singleton, List.filterMap_cons, hnodes, List.filterMap_nil]
    rfl

theorem Mirrors.take_up (h : Mirrors requests repo) (hrs : ∀ r ∈ rs, AppRequest r) :
    ∃ repo', Run FRepo.Step repo (rs.filterMap repoEvent) repo' ∧ Mirrors (requests ++ rs) repo' := by
  induction rs using List.reverseRecOn with
  | nil => exact ⟨repo, Run.nil repo, by rwa [List.append_nil]⟩
  | append_singleton rs r ih =>
    obtain ⟨repo₁, hrun₁, h₁⟩ := ih fun r' hr' => hrs r' (List.mem_append_left [r] hr')
    obtain ⟨repo₂, hrun₂, h₂⟩ := h₁.take_up_one (hrs r (List.mem_append_right rs List.mem_cons_self))
    refine ⟨repo₂, ?_, by rwa [← List.append_assoc]⟩
    have hevents : (rs ++ [r]).filterMap repoEvent = rs.filterMap repoEvent ++ (repoEvent r).toList := by
      cases he : repoEvent r <;> simp [he]
    rw [hevents]
    exact hrun₁.trans hrun₂

/-- The client is told of an answer. -/
theorem Mirrors.answer (h : Mirrors requests repo) (hn : requests[n]? = some r)
    (horder : (repoEvent r).isSome → ∀ earlier ∈ requests.take n, repoEvent earlier = none) :
    ∃ repo', Run FRepo.Step repo ((repoEvent r).map fun _ => RepoEvent.ack).toList repo' ∧
      Mirrors (requests.eraseIdx n) repo' := by
  have hsplit : requests = requests.take n ++ r :: requests.drop (n + 1) := by
    obtain ⟨hlt, rfl⟩ := List.getElem?_eq_some_iff.mp hn
    rw [← List.drop_eq_getElem_cons hlt, List.take_append_drop]
  have hrest : requests.eraseIdx n = requests.take n ++ requests.drop (n + 1) :=
    List.eraseIdx_eq_take_drop_succ requests n
  have happ : ∀ r' ∈ requests.eraseIdx n, AppRequest r' :=
    fun r' hr' => h.app r' (List.mem_of_mem_eraseIdx hr')
  have hpending := h.pending
  rw [hsplit, List.filterMap_append] at hpending
  cases he : repoEvent r with
  | none =>
    have hnodes : requestNodes r = none := by rw [requestNodes, he]; rfl
    refine ⟨repo, Run.nil repo, h.reached, happ, ?_⟩
    rw [hpending, hrest, List.filterMap_append, List.filterMap_cons, hnodes]
  | some e =>
    have hfirst : (requests.take n).filterMap requestNodes = [] := by
      rw [List.filterMap_eq_nil_iff]
      intro earlier hearlier
      rw [requestNodes, horder (by rw [he]; rfl) earlier hearlier]
      rfl
    obtain ⟨-, path, write, hw⟩ := (h.app r (List.mem_of_getElem? hn)).write he
    have hnodes : requestNodes r = some (write.nodesAt path) := by
      rw [requestNodes, he, Option.bind_some, RepoEvent.nodes, hw]
      rfl
    rw [hfirst, List.nil_append, List.filterMap_cons, hnodes] at hpending
    obtain ⟨oldest, later, hp, -, hlater⟩ := List.map_eq_cons_iff.mp hpending
    have hs : FRepo.Step repo .ack (repo.answered oldest later) := FRepo.step_ack h.numbered hp
    refine ⟨_, Run.one hs, h.reach hs trivial, happ, ?_⟩
    rw [FRepo.answered_pending, hlater, hrest, List.filterMap_append, hfirst, List.nil_append]

end Client

section Run

variable {ι : Type} {w w' w₀ : HomeWorld ι} {e : HomeEvent ι} {es : List (HomeEvent ι)} {i : ι}
  {evs : List (RepoEvent Value)} {repo : FRepo Value}

/-- A program adds requests at the end of those that wait on its device, and none elsewhere. -/
theorem resumed_requests {j : ι} {t : Trail} {v : HomeWorld ι}
    (h : Resumed platform actOk callOk j t v w')
    (hv : (v.client i).waiting = (w.client i).waiting) :
    ∃ rs, (w'.client i).requests = (w.client i).requests ++ rs ∧ ∀ r ∈ rs, AppRequest r := by
  by_cases hi : i = j
  · subst hi
    obtain ⟨cs, hcs, hwaiting⟩ := h.calls
    refine ⟨cs.map Call.request, ?_, ?_⟩
    · rw [Client.requests, Client.requests, hwaiting, hv, List.map_append]
    · intro r hr
      obtain ⟨c, hc, rfl⟩ := List.mem_map.mp hr
      exact appRequest_of_callOk (hcs c hc).2.request
  · refine ⟨[], ?_, by simp⟩
    rw [Client.requests, Client.requests, h.others i hi, hv, List.append_nil]

theorem Mirrors.resumed {j : ι} {t : Trail} {v : HomeWorld ι}
    (h : Mirrors (w.client i).requests repo) (hres : Resumed platform actOk callOk j t v w')
    (hv : (v.client i).waiting = (w.client i).waiting) :
    ∃ repo', Run FRepo.Step repo
        (((w'.client i).requests.drop (w.client i).requests.length).filterMap repoEvent) repo' ∧
      Mirrors (w'.client i).requests repo' := by
  obtain ⟨rs, hrequests, hrs⟩ := resumed_requests hres hv
  rw [hrequests, List.drop_left]
  exact h.take_up hrs

theorem mirrors_launched (h : Launched w) : Mirrors (w.client i).requests FRepo.init := by
  obtain ⟨session, hi⟩ := h i
  rw [hi]
  exact ⟨⟨[], Run.nil _, by simp⟩, by simp [Client.requests, Client.start], rfl⟩

/-- What the client of a device shows is what `eventCache` makes of the waiting requests. -/
theorem Mirrors.nodeValue {requests : List Request} (h : Mirrors requests repo) {uid : String}
    (huid : uid ≠ ".priority") (server : FNode Value) :
    ∃ node, repo.pendingWriteTree.calculateCompleteEventCacheAtPath ["users", uid] (some server)
        none false = some node ∧
      HomeController.nodeValue node = eventCache requests uid (HomeController.nodeValue server) := by
  obtain ⟨evs, hrun, hshallow⟩ := h.reached
  have hnodes : unanswered evs = pendingNodes requests := by
    rw [← (FRepo.shown_of_shallow hrun hshallow).1.allNodes, FWriteTree.allNodes,
      List.flatMap_def, h.pending]
    rfl
  exact nodeValue_of_run hrun hshallow hnodes h.app huid server

variable [DecidableEq ι]

def InOrderStep (w : HomeWorld ι) (e : HomeEvent ι) (w' : HomeWorld ι) : Prop :=
  Step platform w e w' ∧ InOrder w e

/-- What the client of a device learns of a step: the writes that are made there, or the answer
to one. -/
def clientEvents (i : ι) (w : HomeWorld ι) (e : HomeEvent ι) (w' : HomeWorld ι) :
    List (RepoEvent Value) :=
  match e with
  | .serve j n _ =>
    if j = i then
      (((w.client i).requests[n]?.bind repoEvent).map fun _ => RepoEvent.ack).toList
    else []
  | _ => ((w'.client i).requests.drop (w.client i).requests.length).filterMap repoEvent

/-- The client of a device follows each step. -/
theorem Mirrors.step (h : Mirrors (w.client i).requests repo) (hw : w.Conforming actOk callOk)
    (hs : InOrderStep w e w') :
    ∃ repo', Run FRepo.Step repo (clientEvents i w e w') repo' ∧
      Mirrors (w'.client i).requests repo' := by
  cases step_effect hw hs.1 with
  | input hres => exact h.resumed hres rfl
  | deliver _ _ hres => exact h.resumed hres World.received_waiting
  | @serve j n o c answer _ hn _ =>
    by_cases hj : j = i
    · subst hj
      have hrequest : (w.client j).requests[n]? = some c.request := by
        rw [Client.requests, List.getElem?_map, hn]
        rfl
      have hrequests : ((w.served j n c answer).client j).requests =
          (w.client j).requests.eraseIdx n := by
        rw [World.served_client_self, Client.requests, Client.answered_waiting, Client.requests,
          ← List.eraseIdx_map]
      rw [hrequests, clientEvents, if_pos rfl, hrequest, Option.bind_some]
      exact h.answer hrequest (hs.2 j n o c.request rfl hrequest)
    · refine ⟨repo, ?_, ?_⟩
      · rw [clientEvents, if_neg hj]
        exact Run.nil repo
      · rwa [World.served_client_of_ne (Ne.symm hj)]

/-- The record of the newcomer in the client. -/
def newcomerNode : FNode Value :=
  .children .empty ("email", leafNode (.string "kim@card.pang"))
    [("fullname", leafNode (.string "Kim")), ("hasSeenOnboarding", leafNode (.bool false))]

theorem nodeValue_newcomerNode : nodeValue newcomerNode = newcomer.server.users "kim" := by
  change some (Node.dictionary _) = some (Node.dictionary _)
  refine congrArg (fun g => some (Node.dictionary g)) (funext fun key => ?_)
  by_cases hemail : key = "email"
  · subst hemail
    rfl
  · by_cases hfullname : key = "fullname"
    · subst hfullname
      rfl
    · by_cases hseen : key = "hasSeenOnboarding"
      · subst hseen
        rfl
      · have hrecord : (newUser "kim@card.pang" "Kim").lookup key = none := by
          simp [newUser, List.lookup, beq_false_of_ne hemail, beq_false_of_ne hfullname,
            beq_false_of_ne hseen]
        rw [hrecord, Option.none_or]
        by_cases hpriority : key = ".priority"
        · exact if_pos hpriority
        · rw [if_neg hpriority, FNode.getChild_cons _ _ hpriority, FNode.getChild_nil,
            FNode.getImmediateChild_of_ne _ _ hpriority]
          simp [FNode.childNodes, Dictionary.get, Ne.symm hemail, Ne.symm hfullname,
            Ne.symm hseen, childValue, children]

end Run

end CardPang.HomeController
