import CardPang.WriteTree
import CardPang.LabelledRun

/-!
# Writing and acknowledging

`FRepo` numbers the writes of the app and hands them to the write tree; the server answers
them in the order in which they were made, and each answer takes the oldest one away. The
write tree then updates what its writes add up to, and only sometimes rebuilds it.
-/
namespace CardPang.Database
open PathLayer LabelledRun FWriteTree

variable {V : Type}

structure FRepo (V : Type) where
  writeIdCounter : Int
  pendingWriteTree : FWriteTree V

inductive RepoEvent (V : Type)
  | set (path : FPath) (newNode : FNode V)
  | update (path : FPath) (values : List (FPath × FNode V))
  | ack

/-- The write that an event makes. An update with no values makes none. -/
def RepoEvent.write : RepoEvent V → Option (FPath × Write V)
  | .set path newNode => some (path, .overwrite newNode)
  | .update path values =>
    let nodes := FCompoundWrite.compoundWriteFromDictionary values
    if nodes.isEmpty then none else some (path, .merge nodes)
  | .ack => none

/-- Every key of an update is one step below its path. -/
def RepoEvent.Shallow : RepoEvent V → Prop
  | .update _ values => ∀ x ∈ values, ∃ key, x.1 = [key]
  | _ => True

namespace FRepo

def init : FRepo V := ⟨0, FWriteTree.init⟩

/-- Nothing, where an assertion of the write tree fails or there is no write to answer. -/
def step (repo : FRepo V) : RepoEvent V → Option (FRepo V)
  | .set path newNode =>
    (repo.pendingWriteTree.addOverwriteAtPath path newNode repo.writeIdCounter true).map
      fun tree => ⟨repo.writeIdCounter + 1, tree⟩
  | .update path values =>
    let nodes := FCompoundWrite.compoundWriteFromDictionary values
    if nodes.isEmpty then some repo
    else
      (repo.pendingWriteTree.addMergeAtPath path nodes repo.writeIdCounter).map
        fun tree => ⟨repo.writeIdCounter + 1, tree⟩
  | .ack =>
    match repo.pendingWriteTree.allWrites with
    | [] => none
    | oldest :: _ =>
      (repo.pendingWriteTree.removeWriteId oldest.writeId).map
        fun x => ⟨repo.writeIdCounter, x.1⟩

def Step (repo : FRepo V) (e : RepoEvent V) (repo' : FRepo V) : Prop := repo.step e = some repo'

def pending (repo : FRepo V) : List (FWriteRecord V) := repo.pendingWriteTree.allWrites

/-- The write ids grow, and no pending write is hidden. -/
structure Numbered (repo : FRepo V) : Prop where
  counter : 0 ≤ repo.writeIdCounter
  last : repo.pendingWriteTree.lastWriteId < repo.writeIdCounter
  records : ∀ s ∈ repo.pending, s.writeId < repo.writeIdCounter ∧ s.visible = true

/-- The visible writes are what the pending ones add up to. -/
def Shown (repo : FRepo V) : Prop :=
  repo.pendingWriteTree.visibleWrites.layer = layered repo.pending

/-- An answer whose write can be taken away: a later write shadows it, or the tree is rebuilt,
or what is written later at or below its paths lies under another later write. -/
def Safe (repo : FRepo V) : RepoEvent V → Prop
  | .ack =>
    match repo.pending with
    | [] => True
    | oldest :: later =>
      Shadowed oldest later ∨ Overlapped oldest later ∨
        ∀ q ∈ oldest.writes.map Prod.fst, (∃ w ∈ allNodes later, q <+: w.1) →
          Under (allNodes later) q
  | _ => True

theorem init_numbered : (init : FRepo V).Numbered where
  counter := le_refl 0
  last := Int.negSucc_lt_zero 0
  records _ hs := nomatch hs

theorem init_shown : (init : FRepo V).Shown := FCompoundWrite.layer_emptyWrite

variable {repo repo' : FRepo V} {e : RepoEvent V} {es : List (RepoEvent V)}

/-- The repository after a write. -/
def written (repo : FRepo V) (path : FPath) (write : Write V) : FRepo V :=
  let record : FWriteRecord V := ⟨repo.writeIdCounter, path, write, true⟩
  { writeIdCounter := repo.writeIdCounter + 1
    pendingWriteTree :=
      { visibleWrites := layerRecord [] repo.pendingWriteTree.visibleWrites record
        allWrites := repo.pending ++ [record]
        lastWriteId := repo.writeIdCounter } }

/-- The repository after the oldest write was answered. -/
def answered (repo : FRepo V) (oldest : FWriteRecord V) (later : List (FWriteRecord V)) :
    FRepo V where
  writeIdCounter := repo.writeIdCounter
  pendingWriteTree :=
    let tree : FWriteTree V := { repo.pendingWriteTree with allWrites := later }
    if Shadowed oldest later then tree
    else if Overlapped oldest later then tree.resetTree
    else { tree with visibleWrites := removeRecord tree.visibleWrites oldest }

/-- No assertion fails at a write. -/
theorem step_write (hn : repo.Numbered) {path : FPath} {write : Write V}
    (h : e.write = some (path, write)) : repo.step e = some (repo.written path write) := by
  cases e with
  | set path' newNode =>
    obtain ⟨rfl, rfl⟩ := Prod.mk.inj (Option.some.inj h)
    simp only [step, addOverwriteAtPath, gt_iff_lt, hn.last, if_true, Option.map_some, written,
      layerRecord, List.nil_prefix]
    rfl
  | update path' values =>
    rw [RepoEvent.write] at h
    split_ifs at h with hempty
    obtain ⟨rfl, rfl⟩ := Prod.mk.inj (Option.some.inj h)
    simp only [step, hempty, addMergeAtPath, gt_iff_lt, hn.last, if_true, Option.map_some,
      written, layerRecord, List.nil_prefix]
    rfl
  | ack => cases h

/-- Nor does one at an answer: the write that it is for is there. -/
theorem step_ack (hn : repo.Numbered) {oldest : FWriteRecord V} {later : List (FWriteRecord V)}
    (h : repo.pending = oldest :: later) : repo.step .ack = some (repo.answered oldest later) := by
  have hvisible : oldest.visible = true := (hn.records oldest (h ▸ List.mem_cons_self)).2
  have hall : repo.pendingWriteTree.allWrites = oldest :: later := h
  simp only [step, hall, removeWriteId_oldest hall hvisible, answered]
  split_ifs <;> rfl

/-- What a step does. -/
theorem step_cases (hn : repo.Numbered) (h : repo.Step e repo') :
    (∃ path write, e.write = some (path, write) ∧ repo' = repo.written path write) ∨
    (e.write = none ∧ e ≠ .ack ∧ repo' = repo) ∨
    ∃ oldest later, e = .ack ∧ repo.pending = oldest :: later ∧
      repo' = repo.answered oldest later := by
  cases hw : e.write with
  | some x =>
    have hstep := step_write hn hw
    exact Or.inl ⟨x.1, x.2, rfl, Option.some.inj (h.symm.trans hstep)⟩
  | none =>
    right
    cases e with
    | set path newNode => cases hw
    | update path values =>
      rw [RepoEvent.write] at hw
      split_ifs at hw with hempty
      rw [Step, step, if_pos hempty] at h
      exact Or.inl ⟨rfl, by simp, (Option.some.inj h).symm⟩
    | ack =>
      rcases hp : repo.pending with _ | ⟨oldest, later⟩
      · have hall : repo.pendingWriteTree.allWrites = [] := hp
        simp only [Step, step, hall] at h
        cases h
      · exact Or.inr ⟨oldest, later, rfl, rfl, Option.some.inj (h.symm.trans (step_ack hn hp))⟩

theorem answered_pending (oldest : FWriteRecord V) (later : List (FWriteRecord V)) :
    (repo.answered oldest later).pending = later := by
  simp only [pending, answered]
  split_ifs <;> rfl

theorem Numbered.written (hn : repo.Numbered) (path : FPath) (write : Write V) :
    (repo.written path write).Numbered where
  counter := by
    have hcounter := hn.counter
    change 0 ≤ repo.writeIdCounter + 1
    omega
  last := by
    change repo.writeIdCounter < repo.writeIdCounter + 1
    omega
  records := by
    intro s hs
    change s.writeId < repo.writeIdCounter + 1 ∧ _
    cases List.mem_append.mp hs with
    | inl hs =>
      have hold := hn.records s hs
      exact ⟨by omega, hold.2⟩
    | inr hs =>
      rw [List.mem_singleton.mp hs]
      exact ⟨by simp, rfl⟩

theorem Numbered.answered (hn : repo.Numbered) {oldest : FWriteRecord V}
    {later : List (FWriteRecord V)} (h : repo.pending = oldest :: later) :
    (repo.answered oldest later).Numbered where
  counter := hn.counter
  last := by
    have hlast := hn.last
    have hcounter := hn.counter
    simp only [FRepo.answered]
    split_ifs
    · exact hlast
    · -- A rebuilt tree takes the id of its last write.
      simp only [resetTree]
      cases hl : later.getLast? with
      | none => exact lt_of_lt_of_le (Int.negSucc_lt_zero 0) hcounter
      | some s =>
        have hs : s ∈ repo.pending := h ▸ List.mem_cons_of_mem _ (List.mem_of_getLast? hl)
        exact (hn.records s hs).1
    · exact hlast
  records s hs := by
    rw [answered_pending] at hs
    exact hn.records s (h ▸ List.mem_cons_of_mem _ hs)

theorem Numbered.step (hn : repo.Numbered) (h : repo.Step e repo') : repo'.Numbered := by
  obtain ⟨path, write, -, rfl⟩ | ⟨-, -, rfl⟩ | ⟨oldest, later, -, hp, rfl⟩ := step_cases hn h
  · exact hn.written path write
  · exact hn
  · exact hn.answered hp

theorem Shown.written (hs : repo.Shown) (path : FPath) (write : Write V) :
    (repo.written path write).Shown := by
  have hlayer := layer_layerRecord repo.pendingWriteTree.visibleWrites
    ⟨repo.writeIdCounter, path, write, true⟩
  change _ = layered (repo.pending ++ [_])
  rw [layered_concat, ← hs]
  exact hlayer

/-- A write that is shadowed adds nothing to those after it. -/
theorem layered_of_shadowed {oldest : FWriteRecord V} {later : List (FWriteRecord V)}
    (h : Shadowed oldest later) : layered (oldest :: later) = layered later := by
  have hcover : ∃ w ∈ allNodes later, w.1 <+: oldest.path := by
    obtain ⟨s, hs, -, hcontains⟩ := h
    obtain ⟨w, hw, hpre⟩ := (s.containsPath_iff oldest.path).mp hcontains
    exact ⟨w, List.mem_flatMap.mpr ⟨s, hs, hw⟩, hpre⟩
  have hoff : Off oldest.path (addAll FNode.updateChild oldest.writes Layer.empty)
      (Layer.empty : Layer String (FNode V)) := by
    refine Off.symm ⟨?_, fun _ _ _ => rfl⟩
    intro p hp
    by_contra hne
    obtain hempty | ⟨w, hw, rfl⟩ := ne_none_of_addAll (Ne.symm hne)
    · exact hempty rfl
    · exact hp (oldest.writes_below hw)
  rw [layered, allNodes, List.flatMap_cons, addAll_append]
  exact hoff.addAll_eq FNode.updateChild_nil (addAll_separate empty_separate) empty_separate hcover

theorem shown_answered (hs : repo.Shown) {oldest : FWriteRecord V}
    {later : List (FWriteRecord V)} (h : repo.pending = oldest :: later) :
    (repo.answered oldest later).Shown ↔ repo.Safe .ack := by
  have hlayer : repo.pendingWriteTree.visibleWrites.layer = layered (oldest :: later) := h ▸ hs
  rw [Shown, answered_pending]
  simp only [Safe, h, answered]
  by_cases hshadow : Shadowed oldest later
  · simp only [hshadow, if_true, true_or, iff_true]
    rw [hlayer, layered_of_shadowed hshadow]
  · by_cases hoverlap : Overlapped oldest later
    · simp only [hshadow, hoverlap, if_false, if_true, true_or, or_true, iff_true]
      exact layer_layerTreeFromWrites later
    · simp only [hshadow, hoverlap, if_false, false_or]
      rw [layer_removeRecord, hlayer, layered, allNodes, List.flatMap_cons, addAll_append]
      exact undo_iff FNode.updateChild_nil oldest.writes_incomparable

/-- A step keeps what is shown exactly if it is safe. -/
theorem shown_step (hn : repo.Numbered) (hs : repo.Shown) (h : repo.Step e repo') :
    repo'.Shown ↔ repo.Safe e := by
  obtain ⟨path, write, hw, rfl⟩ | ⟨-, hack, rfl⟩ | ⟨oldest, later, rfl, hp, rfl⟩ :=
    step_cases hn h
  · refine iff_of_true (hs.written path write) ?_
    cases e with
    | ack => cases hw
    | set path newNode => trivial
    | update path values => trivial
  · refine iff_of_true hs ?_
    cases e with
    | ack => exact absurd rfl hack
    | set path newNode => trivial
    | update path values => trivial
  · exact shown_answered hs hp

-- The answer to the first write loses the pending one that was made below it from above.
example : (((((init : FRepo String).step (.set ["a"] (.leaf "x" .empty))).bind
    fun r => r.step (.update [] [(["a", "b"], .leaf "y" .empty)])).bind fun r => r.step .ack).map
    fun r => (r.pending.length, (r.pendingWriteTree.completeWriteDataAtPath ["a", "b"]).isNone)) =
    some (1, true) := by rfl

end FRepo

end CardPang.Database
