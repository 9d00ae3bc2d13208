import CardPang.PendingWrites

/-!
# What the app reads while its writes are unanswered

The app only makes updates whose keys are one step below their path. Then every answer is
safe, and the event cache shows the unanswered writes over the data of the server.
-/
namespace CardPang.Database
open PathLayer LabelledRun FWriteTree FRepo

variable {V : Type}

/-- The nodes that an event writes. -/
def RepoEvent.nodes (e : RepoEvent V) : Option (List (FPath × FNode V)) :=
  e.write.map fun x => x.2.nodesAt x.1

def RepoEvent.isAck : RepoEvent V → Bool
  | .ack => true
  | _ => false

/-- The nodes of the writes that have no answer yet: the server answers in order. -/
def unanswered (es : List (RepoEvent V)) : List (FPath × FNode V) :=
  ((es.filterMap RepoEvent.nodes).drop (es.countP RepoEvent.isAck)).flatten

/-- What a list of nodes leaves at a path, one by one, when nothing is known before. -/
def lastSeen (p : FPath) (nodes : List (FPath × FNode V)) : Option (FNode V) :=
  nodes.foldl (seen FNode.updateChild FNode.getChild p) none

namespace FRepo

variable {repo repo' : FRepo V} {e : RepoEvent V} {es : List (RepoEvent V)}

theorem nodes_eq_none (h : e.write = none) : e.nodes = none := by
  rw [RepoEvent.nodes, h]
  rfl

theorem isAck_of_write {x : FPath × Write V} (h : e.write = some x) : e.isAck = false := by
  cases e with
  | ack => cases h
  | set path newNode => rfl
  | update path values => rfl

theorem isAck_eq_false (h : e ≠ .ack) : e.isAck = false := by
  cases e with
  | ack => exact absurd rfl h
  | set path newNode => rfl
  | update path values => rfl

/-- The pending records are those of the writes that have no answer yet. -/
structure Queued (es : List (RepoEvent V)) (repo : FRepo V) : Prop where
  numbered : repo.Numbered
  answers : es.countP RepoEvent.isAck ≤ (es.filterMap RepoEvent.nodes).length
  pending : repo.pending.map FWriteRecord.writes =
    (es.filterMap RepoEvent.nodes).drop (es.countP RepoEvent.isAck)

theorem Queued.step (hq : Queued es repo) (h : repo.Step e repo') : Queued (es ++ [e]) repo' := by
  have hn := hq.numbered.step h
  obtain ⟨path, write, hw, rfl⟩ | ⟨hw, hack, rfl⟩ | ⟨oldest, later, rfl, hp, rfl⟩ :=
    step_cases hq.numbered h
  · have hnodes : e.nodes = some (write.nodesAt path) := by rw [RepoEvent.nodes, hw]; rfl
    refine ⟨hn, ?_, ?_⟩
    · have hle := hq.answers
      simp only [List.countP_append, List.countP_singleton, isAck_of_write hw,
        List.filterMap_append, List.length_append]
      simp only [Bool.false_eq_true, if_false]
      omega
    · change (repo.pending ++ [_]).map _ = _
      simp only [List.countP_append, List.countP_singleton, isAck_of_write hw,
        List.filterMap_append, List.map_append, hq.pending]
      simp only [Bool.false_eq_true, if_false, Nat.add_zero, List.drop_append_of_le_length hq.answers,
        List.filterMap_cons, hnodes, List.filterMap_nil, List.map_singleton]
      rfl
  · have hnodes := nodes_eq_none hw
    have hsame : (es ++ [e]).countP RepoEvent.isAck = es.countP RepoEvent.isAck := by
      simp [isAck_eq_false hack]
    have hwritten : (es ++ [e]).filterMap RepoEvent.nodes = es.filterMap RepoEvent.nodes := by
      simp [hnodes]
    exact ⟨hn, by rw [hsame, hwritten]; exact hq.answers, by rw [hsame, hwritten]; exact hq.pending⟩
  · have hcount : (es ++ [RepoEvent.ack]).countP RepoEvent.isAck = es.countP RepoEvent.isAck + 1 := by
      simp [RepoEvent.isAck]
    have hwritten : (es ++ [RepoEvent.ack]).filterMap RepoEvent.nodes = es.filterMap RepoEvent.nodes := by
      simp [RepoEvent.nodes, RepoEvent.write]
    have hlater : later.map FWriteRecord.writes =
        ((es.filterMap RepoEvent.nodes).drop (es.countP RepoEvent.isAck)).tail := by
      rw [← hq.pending, hp]
      rfl
    refine ⟨hn, ?_, ?_⟩
    · have hlength := congrArg List.length hq.pending
      simp only [hp, List.map_cons, List.length_cons, List.length_drop] at hlength
      rw [hcount, hwritten]
      omega
    · rw [answered_pending, hlater, hcount, hwritten, List.tail_drop]

/-- A record that came from a shallow update or a set. -/
def ShallowRecord (s : FWriteRecord V) : Prop :=
  ∀ w ∈ s.writes, w.1 = s.path ∨ ∃ key, w.1 = s.path ++ [key]

theorem shallowRecord_written {path : FPath} {write : Write V} (hshallow : e.Shallow)
    (hw : e.write = some (path, write)) (id : Int) : ShallowRecord ⟨id, path, write, true⟩ := by
  intro w hmem
  cases e with
  | ack => cases hw
  | set path' newNode =>
    obtain ⟨rfl, rfl⟩ := Prod.mk.inj (Option.some.inj hw)
    rw [List.mem_singleton.mp hmem]
    exact Or.inl rfl
  | update path' values =>
    rw [RepoEvent.write] at hw
    split_ifs at hw
    obtain ⟨rfl, rfl⟩ := Prod.mk.inj (Option.some.inj hw)
    obtain ⟨x, hx, rfl⟩ := List.mem_map.mp hmem
    obtain ⟨y, hy, hxy⟩ := FCompoundWrite.mem_enumerateWrites_dictionary hx
    obtain ⟨key, hkey⟩ := hshallow y hy
    exact Or.inr ⟨key, by rw [hxy, hkey]⟩

/-- Among shallow writes a later one at or below the oldest is seen by the checks. -/
theorem safe_of_shallow (hshallow : ∀ s ∈ repo.pending, ShallowRecord s)
    (hn : repo.Numbered) (e : RepoEvent V) : repo.Safe e := by
  cases e with
  | set path newNode => trivial
  | update path values => trivial
  | ack =>
    rcases hp : repo.pending with _ | ⟨oldest, later⟩
    · simp only [Safe, hp]
    · simp only [Safe, hp]
      by_cases hoverlap : Overlapped oldest later
      · exact Or.inr (Or.inl hoverlap)
      by_cases hshadow : Shadowed oldest later
      · exact Or.inl hshadow
      refine Or.inr (Or.inr ?_)
      intro q hq hbelow
      exfalso
      obtain ⟨x, hx, rfl⟩ := List.mem_map.mp hq
      obtain ⟨w, hw, hqw⟩ := hbelow
      obtain ⟨s, hs, hws⟩ := List.mem_flatMap.mp hw
      have hmem : s ∈ repo.pending := hp ▸ List.mem_cons_of_mem oldest hs
      have hvisible := (hn.records s hmem).2
      have hpath : oldest.path <+: w.1 := (oldest.writes_below hx).trans hqw
      have hnot : ¬ oldest.path <+: s.path := fun h => hoverlap ⟨s, hs, hvisible, h⟩
      obtain hsame | ⟨key, hkey⟩ := hshallow s hmem w hws
      · exact hnot (hsame ▸ hpath)
      · -- The later write is then exactly at the path of the oldest one.
        obtain heq | hpre := List.prefix_concat_iff.mp (hkey ▸ hpath)
        · refine hshadow ⟨s, hs, hvisible, (s.containsPath_iff oldest.path).mpr ⟨w, hws, ?_⟩⟩
          rw [hkey, heq]
        · exact hnot hpre

/-- In a run of shallow writes the visible writes are those without an answer. -/
theorem shown_of_shallow (h : Run Step (init : FRepo V) es repo)
    (hshallow : ∀ e ∈ es, e.Shallow) : Queued es repo ∧ repo.Shown := by
  have hall : (∀ e ∈ es, e.Shallow) →
      Queued es repo ∧ repo.Shown ∧ ∀ s ∈ repo.pending, ShallowRecord s := by
    refine Run.induction (I := fun es repo => (∀ e ∈ es, e.Shallow) →
      Queued es repo ∧ repo.Shown ∧ ∀ s ∈ repo.pending, ShallowRecord s) ?_ ?_ h
    · intro _
      exact ⟨⟨init_numbered, le_refl 0, rfl⟩, init_shown, fun s hs => nomatch hs⟩
    · intro es t e u _ ih he hes
      obtain ⟨hq, hshown, hrecords⟩ := ih fun e' he' => hes e' (List.mem_append_left [e] he')
      have heshallow : e.Shallow := hes e (List.mem_append_right es List.mem_cons_self)
      refine ⟨hq.step he, (shown_step hq.numbered hshown he).mpr
        (safe_of_shallow hrecords hq.numbered e), ?_⟩
      obtain ⟨path, write, hw, rfl⟩ | ⟨-, -, rfl⟩ | ⟨oldest, later, -, hp, rfl⟩ :=
        step_cases hq.numbered he
      · intro s hs
        cases List.mem_append.mp hs with
        | inl hs => exact hrecords s hs
        | inr hs =>
          rw [List.mem_singleton.mp hs]
          exact shallowRecord_written heshallow hw _
      · exact hrecords
      · intro s hs
        rw [answered_pending] at hs
        exact hrecords s (hp ▸ List.mem_cons_of_mem oldest hs)
  exact ⟨(hall hshallow).1, (hall hshallow).2.1⟩

theorem Queued.allNodes (hq : Queued es repo) : allNodes repo.pending = unanswered es := by
  rw [FWriteTree.allNodes, List.flatMap_def, hq.pending]
  rfl

/-- At every plain path the event cache shows what the unanswered writes leave there, and the
data of the server where none of them is at, above or below the path. -/
theorem event_cache_shows_unanswered (h : Run Step (init : FRepo V) es repo)
    (hshallow : ∀ e ∈ es, e.Shallow) {treePath p : FPath} (hp : FNode.Plain (treePath ++ p))
    (server : FNode V) :
    ∃ node, repo.pendingWriteTree.calculateCompleteEventCacheAtPath treePath (some server)
        none false = some node ∧
      (∀ v, lastSeen (treePath ++ p) (unanswered es) = some v → node.getChild p = v) ∧
      ((∀ w ∈ unanswered es, ¬ w.1 <+: treePath ++ p ∧ ¬ treePath ++ p <+: w.1) →
        node.getChild p = server.getChild p) := by
  obtain ⟨hq, hshown⟩ := shown_of_shallow h hshallow
  have hlayer : repo.pendingWriteTree.visibleWrites.layer =
      addAll FNode.updateChild (unanswered es) Layer.empty := by
    rw [hshown, layered, hq.allNodes]
  obtain ⟨node, hnode, hwritten, hkept⟩ :=
    calculateCompleteEventCacheAtPath_reads repo.pendingWriteTree server hp
  refine ⟨node, hnode, ?_, ?_⟩
  · intro v hv
    refine hwritten v ?_
    have hstart : complete FNode.getChild (Layer.empty : Layer String (FNode V)) (treePath ++ p) =
        none := by
      rw [complete, rootMost_empty]
      rfl
    rw [completeWriteDataAtPath, FCompoundWrite.completeNodeAtPath_eq, hlayer,
      complete_addAll (FNode.readsBack _ hp), hstart]
    exact hv
  · intro hfree
    refine hkept ?_
    intro q hq
    rw [hlayer]
    by_contra hne
    obtain hempty | ⟨w, hw, rfl⟩ := ne_none_of_addAll hne
    · exact hempty rfl
    · cases hq with
      | inl habove => exact (hfree w hw).1 habove
      | inr hbelow => exact (hfree w hw).2 hbelow

end FRepo

end CardPang.Database
