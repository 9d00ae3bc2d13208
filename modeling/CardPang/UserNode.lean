import CardPang.AccountProtocol
import CardPang.EventCache
import CardPang.UpdatePaths

/-!
# The node of a user in the database client

The requests of the app as writes of the pod, which keeps them until they are answered. The
event cache that the pod computes from them is the node that `eventCache` gives.
-/
namespace CardPang.HomeController
open CallbackProgram Firebase LabelledRun Service Database

section Nodes

def leafNode (value : Value) : FNode Value := .leaf value .empty

/-- `val` of a child, by the casts that succeed on it. -/
def childValue : FNode Value → Option Value
  | .empty => none
  | .leaf value _ => some value
  | .children _ _ _ => some .other

/-- `val` of the node of a user. An array, for a node with nothing but numbers as its keys, is
taken as a dictionary. -/
def nodeValue : FNode Value → Option Node
  | .empty => none
  | .leaf _ _ => some .leaf
  | .children priorityNode first rest =>
    some (.dictionary fun key =>
      if key = ".priority" then none
      else childValue ((FNode.children priorityNode first rest).getChild [key]))

/-- The write that a request makes in the client, if its paths are accepted. -/
def repoEvent : Request → Option (RepoEvent Value)
  | .updateChildValues uid values =>
    let nodes := values.map fun x => (x.1, leafNode x.2)
    match compoundWriteFromDictionaryWithValidation "updateChildValues:withCompletionBlock:" nodes with
    | .ok _ => some (.update (refUsers.child uid).path (updateWrites nodes))
    | .error _ => none
  | .setValue uid key value => some (.set ((refUsers.child uid).child key).path (leafNode value))
  | _ => none

/-- The value that a request writes at a key of a user. -/
def writtenValue (uid key : String) : Request → Option Value
  | .updateChildValues other values => if other = uid then values.lookup key else none
  | .setValue other name value => if other = uid ∧ key = name then some value else none
  | _ => none

/-- The last value that the requests write there. -/
def lastWritten (uid key : String) (pending : List Request) : Option Value :=
  pending.foldl (fun known r => (writtenValue uid key r).or known) none

/-- The nodes that a request writes in the client. -/
def requestNodes (r : Request) : Option (List (FPath × FNode Value)) :=
  (repoEvent r).bind RepoEvent.nodes

variable {uid key : String} {pending : List Request} {node : Option Node}

theorem children_written (uid key : String) (r : Request) (node : Option Node) :
    children (r.written uid node) key = (writtenValue uid key r).or (children node key) := by
  cases r with
  | updateChildValues other values =>
    simp only [Request.written, writtenValue]
    split_ifs
    · rfl
    · rfl
  | setValue other name value =>
    simp only [Request.written, writtenValue]
    by_cases hother : other = uid
    · by_cases hname : key = name
      · simp [hother, hname, Firebase.setValue, children]
      · simp [hother, hname, Firebase.setValue, children]
    · simp [hother]
  | _ => rfl

/-- A key of a user as the client shows it: what was last written there and has no answer
yet, or else what the server has. -/
theorem children_eventCache (uid key : String) (pending : List Request) (node : Option Node) :
    children (eventCache pending uid node) key =
      (lastWritten uid key pending).or (children node key) := by
  induction pending using List.reverseRecOn with
  | nil => rfl
  | append_singleton pending r ih =>
    have hcache : eventCache (pending ++ [r]) uid node =
        r.written uid (eventCache pending uid node) := by
      simp only [eventCache, List.foldl_append, List.foldl_cons, List.foldl_nil]
    have hlast : lastWritten uid key (pending ++ [r]) =
        (writtenValue uid key r).or (lastWritten uid key pending) := by
      simp only [lastWritten, List.foldl_append, List.foldl_cons, List.foldl_nil]
    rw [hcache, hlast, children_written, ih, Option.or_assoc]

theorem updateWrites_newUser (email fullname : String) :
    updateWrites ((newUser email fullname).map fun x => (x.1, leafNode x.2)) =
      [(["email"], leafNode (.string email)), (["fullname"], leafNode (.string fullname)),
        (["hasSeenOnboarding"], leafNode (.bool false))] := by
  have hemail : pathWithString "email" = ["email"] := by decide
  have hfullname : pathWithString "fullname" = ["fullname"] := by decide
  have hseen : pathWithString "hasSeenOnboarding" = ["hasSeenOnboarding"] := by decide
  simp only [updateWrites, newUser, List.map_cons, List.map_nil, hemail, hfullname, hseen]

/-- The paths of the record of a new user pass the checks of the client. -/
theorem newUser_accepted (email fullname : String) : ∃ w,
    compoundWriteFromDictionaryWithValidation "updateChildValues:withCompletionBlock:"
      ((newUser email fullname).map fun x => (x.1, leafNode x.2)) = .ok w := by
  refine ⟨_, accepted_iff.mpr ⟨?_, rfl⟩⟩
  rw [updateWrites_newUser]
  change (sortPaths [["email"], ["fullname"], ["hasSeenOnboarding"]]).IsChain _
  decide

theorem repoEvent_newUser (uid email fullname : String) :
    repoEvent (.updateChildValues uid (newUser email fullname)) =
      some (.update ["users", uid] [(["email"], leafNode (.string email)),
        (["fullname"], leafNode (.string fullname)),
        (["hasSeenOnboarding"], leafNode (.bool false))]) := by
  obtain ⟨w, hw⟩ := newUser_accepted email fullname
  simp only [repoEvent, hw, updateWrites_newUser]
  rfl

theorem requestNodes_newUser (uid email fullname : String) :
    requestNodes (.updateChildValues uid (newUser email fullname)) =
      some [(["users", uid, "email"], leafNode (.string email)),
        (["users", uid, "fullname"], leafNode (.string fullname)),
        (["users", uid, "hasSeenOnboarding"], leafNode (.bool false))] := by
  rw [requestNodes, repoEvent_newUser]
  rfl

/-- The requests of the app, by what they write. -/
inductive AppRequest : Request → Prop
  | newUser (uid email fullname : String) :
    AppRequest (.updateChildValues uid (newUser email fullname))
  | seen (uid : String) : AppRequest (.setValue uid "hasSeenOnboarding" (.bool true))
  | read {r : Request} (event : repoEvent r = none)
      (value : ∀ uid key, writtenValue uid key r = none)
      (written : ∀ uid node, r.written uid node = node) : AppRequest r

theorem appRequest_of_callOk {t : Trail} {r : Request} (h : callOk t r) : AppRequest r := by
  cases r with
  | updateChildValues uid values =>
    obtain ⟨-, -, email, fullname, rfl⟩ := h
    exact .newUser uid email fullname
  | setValue uid key value =>
    obtain ⟨-, rfl, rfl⟩ := h
    exact .seen uid
  | _ => exact .read rfl (fun _ _ => rfl) fun _ _ => rfl

/-- What is known of a key of a user after a write at a key of some user. -/
theorem seen_user (uid key other name : String) (value : Value) (known : Option (FNode Value)) :
    PathLayer.seen FNode.updateChild FNode.getChild ["users", uid, key] known
        (["users", other, name], leafNode value) =
      if other = uid ∧ key = name then some (leafNode value) else known := by
  by_cases h : other = uid ∧ key = name
  · obtain ⟨rfl, rfl⟩ := h
    rw [if_pos ⟨rfl, rfl⟩, PathLayer.seen, if_pos (List.prefix_refl _), List.drop_length]
    rfl
  · have hne : ¬ ["users", other, name] <+: ["users", uid, key] := by
      intro hpre
      have heq := hpre.eq_of_length rfl
      simp only [List.cons.injEq, and_true, true_and] at heq
      exact h ⟨heq.1, heq.2.symm⟩
    have hne' : ¬ ["users", uid, key] <+: ["users", other, name] := by
      intro hpre
      have heq := hpre.eq_of_length rfl
      simp only [List.cons.injEq, and_true, true_and] at heq
      exact h ⟨heq.1.symm, heq.2⟩
    rw [if_neg h, PathLayer.seen, if_neg hne, if_neg hne']

/-- The nodes of one request leave at a key of a user what the request writes there. -/
theorem seen_requestNodes {r : Request} (hr : AppRequest r) (uid key : String)
    (known : Option (FNode Value)) :
    ((requestNodes r).getD []).foldl
        (PathLayer.seen FNode.updateChild FNode.getChild ["users", uid, key]) known =
      ((writtenValue uid key r).map leafNode).or known := by
  cases hr with
  | newUser other email fullname =>
    rw [requestNodes_newUser]
    simp only [Option.getD_some, List.foldl_cons, List.foldl_nil, seen_user, writtenValue, newUser,
      List.lookup]
    by_cases hother : other = uid
    · by_cases hemail : key = "email"
      · simp [hother, hemail]
      · by_cases hfullname : key = "fullname"
        · simp [hother, hfullname]
        · by_cases hseen : key = "hasSeenOnboarding"
          · simp [hother, hseen]
          · simp [hother, hemail, hfullname, hseen, beq_false_of_ne]
    · simp [hother]
  | seen other =>
    change PathLayer.seen _ _ _ _ (["users", other, "hasSeenOnboarding"], _) = _
    rw [seen_user, writtenValue]
    split_ifs <;> rfl
  | read event value _ =>
    rw [requestNodes, event, value]
    rfl

/-- The nodes of the requests that wait. -/
def pendingNodes (pending : List Request) : List (FPath × FNode Value) :=
  (pending.filterMap requestNodes).flatten

theorem lastSeen_pendingNodes (uid key : String) (hpending : ∀ r ∈ pending, AppRequest r) :
    lastSeen ["users", uid, key] (pendingNodes pending) =
      (lastWritten uid key pending).map leafNode := by
  induction pending using List.reverseRecOn with
  | nil => rfl
  | append_singleton pending r ih =>
    have hlast : lastWritten uid key (pending ++ [r]) =
        (writtenValue uid key r).or (lastWritten uid key pending) := by
      simp only [lastWritten, List.foldl_append, List.foldl_cons, List.foldl_nil]
    have hnodes : pendingNodes (pending ++ [r]) =
        pendingNodes pending ++ (requestNodes r).getD [] := by
      cases hr : requestNodes r <;> simp [pendingNodes, hr]
    have hbefore := ih fun r' hr' => hpending r' (List.mem_append_left [r] hr')
    rw [lastSeen] at hbefore ⊢
    rw [hnodes, List.foldl_append, hbefore,
      seen_requestNodes (hpending r (List.mem_append_right pending List.mem_cons_self)), hlast]
    cases writtenValue uid key r <;> rfl

theorem lastWritten_eq_none_iff :
    lastWritten uid key pending = none ↔ ∀ r ∈ pending, writtenValue uid key r = none := by
  induction pending using List.reverseRecOn with
  | nil => simp [lastWritten]
  | append_singleton pending r ih =>
    have hlast : lastWritten uid key (pending ++ [r]) =
        (writtenValue uid key r).or (lastWritten uid key pending) := by
      simp only [lastWritten, List.foldl_append, List.foldl_cons, List.foldl_nil]
    rw [hlast, Option.or_eq_none_iff, ih]
    simp [or_imp, forall_and, and_comm]

/-- Each of these nodes stands at a key of a user that a request writes. -/
theorem mem_pendingNodes (hpending : ∀ r ∈ pending, AppRequest r) {x : FPath × FNode Value}
    (hx : x ∈ pendingNodes pending) :
    ∃ other name, x.1 = ["users", other, name] ∧ lastWritten other name pending ≠ none := by
  obtain ⟨nodes, hnodes, hx⟩ := List.mem_flatten.mp hx
  obtain ⟨r, hr, hrequest⟩ := List.mem_filterMap.mp hnodes
  have hwritten : ∃ other name, x.1 = ["users", other, name] ∧ writtenValue other name r ≠ none := by
    cases hpending r hr with
    | newUser uid email fullname =>
      rw [requestNodes_newUser] at hrequest
      obtain rfl := Option.some.inj hrequest
      simp only [List.mem_cons, List.not_mem_nil, or_false] at hx
      obtain rfl | rfl | rfl := hx
      · exact ⟨uid, "email", rfl, by simp [writtenValue, newUser]⟩
      · exact ⟨uid, "fullname", rfl, by simp [writtenValue, newUser, List.lookup]⟩
      · exact ⟨uid, "hasSeenOnboarding", rfl, by simp [writtenValue, newUser, List.lookup]⟩
    | seen uid =>
      obtain rfl := Option.some.inj hrequest
      rw [List.mem_singleton.mp hx]
      exact ⟨uid, "hasSeenOnboarding", rfl, by simp [writtenValue]⟩
    | read event _ _ =>
      rw [requestNodes, event] at hrequest
      cases hrequest
  obtain ⟨other, name, hpath, hvalue⟩ := hwritten
  exact ⟨other, name, hpath, fun hnone => hvalue (lastWritten_eq_none_iff.mp hnone r hr)⟩

theorem writtenValue_priority {r : Request} (hr : AppRequest r) (uid : String) :
    writtenValue uid ".priority" r = none := by
  cases hr with
  | newUser other email fullname => simp [writtenValue, newUser, List.lookup]
  | seen other => simp [writtenValue]
  | read _ value _ => exact value uid ".priority"

theorem eventCache_of_no_write (hpending : ∀ r ∈ pending, AppRequest r)
    (h : ∀ key, lastWritten uid key pending = none) : eventCache pending uid node = node := by
  refine eventCache_invariant (I := fun n => n = node) rfl ?_
  rintro r hr n rfl
  cases hpending r hr with
  | newUser other email fullname =>
    have hnone := lastWritten_eq_none_iff.mp (h "email") _ hr
    have hother : other ≠ uid := by
      rintro rfl
      simp [writtenValue, newUser] at hnone
    exact if_neg hother
  | seen other =>
    have hnone := lastWritten_eq_none_iff.mp (h "hasSeenOnboarding") _ hr
    have hother : other ≠ uid := by
      rintro rfl
      simp [writtenValue] at hnone
    exact if_neg hother
  | read _ _ written => exact written uid n

theorem children_nodeValue (server : FNode Value) (h : key ≠ ".priority") :
    children (nodeValue server) key = childValue (server.getChild [key]) := by
  cases server with
  | empty => rw [FNode.getChild_empty]; rfl
  | leaf value priorityNode =>
    rw [FNode.getChild, if_neg h]
    rfl
  | children priorityNode first rest => exact if_neg h

end Nodes

section Pod

variable {repo : FRepo Value} {evs : List (RepoEvent Value)} {pending : List Request}
  {uid key : String}

/-- The node of the client has at each key of the user what the requests leave there. -/
theorem childValue_of_run (h : Run FRepo.Step FRepo.init evs repo) (hshallow : ∀ e ∈ evs, e.Shallow)
    (hnodes : unanswered evs = pendingNodes pending) (hpending : ∀ r ∈ pending, AppRequest r)
    (huid : uid ≠ ".priority") (hkey : key ≠ ".priority") (server : FNode Value) :
    ∃ node, repo.pendingWriteTree.calculateCompleteEventCacheAtPath ["users", uid] (some server)
        none false = some node ∧
      childValue (node.getChild [key]) =
        (lastWritten uid key pending).or (childValue (server.getChild [key])) ∧
      (lastWritten uid key pending ≠ none → (node.getChild [key]).isEmpty = false) := by
  have hplain : FNode.Plain (["users", uid] ++ [key]) := by
    simp [FNode.Plain, huid.symm, hkey.symm]
  obtain ⟨node, hnode, hwritten, hkept⟩ := FRepo.event_cache_shows_unanswered h hshallow hplain server
  refine ⟨node, hnode, ?_⟩
  have hseen := lastSeen_pendingNodes uid key hpending
  rw [← hnodes] at hseen
  cases hlast : lastWritten uid key pending with
  | some value =>
    rw [hlast] at hseen
    rw [hwritten _ hseen]
    exact ⟨rfl, fun _ => rfl⟩
  | none =>
    rw [hkept ?_]
    · exact ⟨rfl, fun h => absurd rfl h⟩
    · intro x hx
      obtain ⟨other, name, hpath, hother⟩ := mem_pendingNodes hpending (hnodes ▸ hx)
      have hne : x.1 ≠ ["users", uid, key] := by
        rintro heq
        rw [hpath] at heq
        simp only [List.cons.injEq, and_true, true_and] at heq
        rw [heq.1, heq.2] at hother
        exact hother hlast
      rw [hpath] at hne ⊢
      exact ⟨fun hpre => hne (hpre.eq_of_length rfl), fun hpre => hne (hpre.eq_of_length rfl).symm⟩

/-- Once something is written to it and not answered, a user is shown as a dictionary. -/
theorem eventCache_eq_dictionary {node : Option Node} (h : lastWritten uid key pending ≠ none) :
    ∃ f, eventCache pending uid node = some (.dictionary f) := by
  have hread := children_eventCache uid key pending node
  obtain ⟨value, hvalue⟩ := Option.ne_none_iff_exists'.mp h
  rw [hvalue, Option.some_or] at hread
  cases hcache : eventCache pending uid node with
  | none =>
    rw [hcache] at hread
    cases hread
  | some n =>
    cases n with
    | leaf =>
      rw [hcache] at hread
      cases hread
    | dictionary f => exact ⟨f, rfl⟩

/-- A node with a child is shown as the dictionary of its children. -/
theorem nodeValue_eq_dictionary {node : FNode Value} (hkey : key ≠ ".priority")
    (h : (node.getChild [key]).isEmpty = false) :
    nodeValue node = some (.dictionary fun name =>
      if name = ".priority" then none else childValue (node.getChild [name])) := by
  cases node with
  | empty =>
    rw [FNode.getChild_empty] at h
    cases h
  | leaf value priorityNode =>
    rw [FNode.getChild, if_neg hkey] at h
    cases h
  | children priorityNode first rest => rfl

/-- The client leaves the node of a user as the server has it while no write to it waits. -/
theorem node_of_no_write (h : Run FRepo.Step FRepo.init evs repo) (hshallow : ∀ e ∈ evs, e.Shallow)
    (hnodes : unanswered evs = pendingNodes pending) (hpending : ∀ r ∈ pending, AppRequest r)
    (huid : uid ≠ ".priority") (hno : ∀ key, lastWritten uid key pending = none)
    (server : FNode Value) :
    repo.pendingWriteTree.calculateCompleteEventCacheAtPath ["users", uid] (some server)
      none false = some server := by
  have hplain : FNode.Plain (["users", uid] ++ []) := by simp [FNode.Plain, huid.symm]
  obtain ⟨node, hnode, -, hkept⟩ := FRepo.event_cache_shows_unanswered h hshallow hplain server
  have hsame : node.getChild [] = server.getChild [] := by
    refine hkept fun x hx => ?_
    obtain ⟨other, name, hpath, hother⟩ := mem_pendingNodes hpending (hnodes ▸ hx)
    have hne : other ≠ uid := by
      rintro rfl
      exact hother (hno name)
    rw [hpath]
    constructor
    · intro hpre
      exact absurd hpre.length_le (by simp)
    · intro hpre
      simp only [List.append_nil, List.cons_prefix_cons, List.nil_prefix, and_true,
        true_and] at hpre
      exact hne hpre.symm
  rw [FNode.getChild_nil, FNode.getChild_nil] at hsame
  rw [hnode, hsame]

/-- The client shows its own unanswered writes over the data of the server, as `eventCache`
says. -/
theorem nodeValue_of_run (h : Run FRepo.Step FRepo.init evs repo) (hshallow : ∀ e ∈ evs, e.Shallow)
    (hnodes : unanswered evs = pendingNodes pending) (hpending : ∀ r ∈ pending, AppRequest r)
    (huid : uid ≠ ".priority") (server : FNode Value) :
    ∃ node, repo.pendingWriteTree.calculateCompleteEventCacheAtPath ["users", uid] (some server)
        none false = some node ∧ nodeValue node = eventCache pending uid (nodeValue server) := by
  by_cases hno : ∀ key, lastWritten uid key pending = none
  · refine ⟨server, node_of_no_write h hshallow hnodes hpending huid hno server, ?_⟩
    exact (eventCache_of_no_write hpending hno).symm
  · obtain ⟨name, hname⟩ := not_forall.mp hno
    have hpriority : lastWritten uid ".priority" pending = none :=
      lastWritten_eq_none_iff.mpr fun r hr => writtenValue_priority (hpending r hr) uid
    have hplain : name ≠ ".priority" := by
      rintro rfl
      exact hname hpriority
    obtain ⟨node, hnode, -, hfull⟩ :=
      childValue_of_run h hshallow hnodes hpending huid hplain server
    refine ⟨node, hnode, ?_⟩
    obtain ⟨f, hf⟩ : ∃ f, eventCache pending uid (nodeValue server) = some (.dictionary f) :=
      eventCache_eq_dictionary hname
    rw [hf, nodeValue_eq_dictionary hplain (hfull hname)]
    refine congrArg (fun g => some (Node.dictionary g)) (funext fun key => ?_)
    have hread := children_eventCache uid key pending (nodeValue server)
    rw [hf] at hread
    change f key = _ at hread
    rw [hread]
    by_cases hkey : key = ".priority"
    · subst hkey
      rw [if_pos rfl, hpriority, Option.none_or]
      cases server <;> rfl
    · obtain ⟨node', hnode', hvalue, -⟩ :=
        childValue_of_run h hshallow hnodes hpending huid hkey server
      obtain rfl := Option.some.inj (hnode.symm.trans hnode')
      rw [if_neg hkey, hvalue, children_nodeValue server hkey]

end Pod

end CardPang.HomeController
