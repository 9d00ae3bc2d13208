import CardPang.CompoundRead

/-!
# The pending writes of the database client

`FWriteRecord` and `FWriteTree`. The write tree keeps the pending writes in the order in
which they were made, and beside them the compound write that they add up to.
-/
namespace CardPang.Database
open PathLayer

variable {V : Type}

inductive Write (V : Type)
  | overwrite (node : FNode V)
  | merge (changedChildren : FCompoundWrite V)

/-- The nodes that are written at a path, in order. -/
def Write.nodesAt (path : FPath) : Write V → List (FPath × FNode V)
  | .overwrite node => [(path, node)]
  | .merge changedChildren => changedChildren.writesAt path

structure FWriteRecord (V : Type) where
  writeId : Int
  path : FPath
  write : Write V
  visible : Bool

namespace FWriteRecord

def writes (record : FWriteRecord V) : List (FPath × FNode V) := record.write.nodesAt record.path

/-- `record:containsPath:` of the write tree. -/
def containsPath (record : FWriteRecord V) (path : FPath) : Bool :=
  match record.write with
  | .overwrite _ => record.path.isPrefixOf path
  | .merge changedChildren =>
    changedChildren.enumerateWrites.any fun x => (record.path ++ x.1).isPrefixOf path

variable (record : FWriteRecord V)

theorem containsPath_iff (path : FPath) :
    record.containsPath path = true ↔ ∃ w ∈ record.writes, w.1 <+: path := by
  rw [containsPath, writes]
  cases record.write with
  | overwrite node => simp [Write.nodesAt]
  | merge changedChildren =>
    simp only [Write.nodesAt, List.any_eq_true, List.isPrefixOf_iff_prefix,
      FCompoundWrite.writesAt, List.mem_map, exists_exists_and_eq_and]

theorem writes_below {w : FPath × FNode V} (hw : w ∈ record.writes) : record.path <+: w.1 := by
  rw [writes] at hw
  cases hwrite : record.write with
  | overwrite node =>
    rw [hwrite] at hw
    rw [List.mem_singleton.mp hw]
  | merge changedChildren =>
    rw [hwrite] at hw
    obtain ⟨x, -, rfl⟩ := List.mem_map.mp hw
    exact List.prefix_append record.path x.1

theorem writes_incomparable : Incomparable (record.writes.map Prod.fst) := by
  rw [writes]
  cases record.write with
  | overwrite node =>
    intro p hp q hq _
    rw [List.mem_singleton.mp hp, List.mem_singleton.mp hq]
  | merge changedChildren => exact FCompoundWrite.writesAt_incomparable

end FWriteRecord

structure FWriteTree (V : Type) where
  visibleWrites : FCompoundWrite V
  allWrites : List (FWriteRecord V)
  lastWriteId : Int

namespace FWriteTree

open FCompoundWrite

def init : FWriteTree V := ⟨emptyWrite, [], -1⟩

/-- One round of the loop in `layerTreeFromWrites:filter:treeRoot:`. -/
def layerRecord (treeRoot : FPath) (compoundWrite : FCompoundWrite V)
    (record : FWriteRecord V) : FCompoundWrite V :=
  match record.write with
  | .overwrite node =>
    if treeRoot <+: record.path then
      compoundWrite.addWrite node (relativePath treeRoot record.path)
    else if record.path <+: treeRoot then
      compoundWrite.addWrite (node.getChild (relativePath record.path treeRoot)) []
    else compoundWrite
  | .merge changedChildren =>
    if treeRoot <+: record.path then
      compoundWrite.addCompoundWrite changedChildren (relativePath treeRoot record.path)
    else if record.path <+: treeRoot then
      let path := relativePath record.path treeRoot
      if path = [] then compoundWrite.addCompoundWrite changedChildren []
      else
        match changedChildren.completeNodeAtPath path with
        | some child => compoundWrite.addWrite (child.getChild path.tail) []
        | none => compoundWrite
    else compoundWrite

def layerTreeFromWrites (writes : List (FWriteRecord V)) (filter : FWriteRecord V → Bool)
    (treeRoot : FPath) : FCompoundWrite V :=
  (writes.filter filter).foldl (layerRecord treeRoot) emptyWrite

/-- The filter keeps hidden writes as well, whatever its comment says. -/
def defaultFilter (_ : FWriteRecord V) : Bool := true

def resetTree (tree : FWriteTree V) : FWriteTree V where
  visibleWrites := layerTreeFromWrites tree.allWrites defaultFilter []
  allWrites := tree.allWrites
  lastWriteId :=
    match tree.allWrites.getLast? with
    | some lastRecord => lastRecord.writeId
    | none => -1

/-- Nothing, where the assertion on the order of the write ids fails. -/
def addOverwriteAtPath (tree : FWriteTree V) (path : FPath) (newData : FNode V)
    (writeId : Int) (visible : Bool) : Option (FWriteTree V) :=
  if writeId > tree.lastWriteId then
    some
      { visibleWrites :=
          if visible then tree.visibleWrites.addWrite newData path else tree.visibleWrites
        allWrites := tree.allWrites ++ [⟨writeId, path, .overwrite newData, visible⟩]
        lastWriteId := writeId }
  else none

def addMergeAtPath (tree : FWriteTree V) (path : FPath) (changedChildren : FCompoundWrite V)
    (writeId : Int) : Option (FWriteTree V) :=
  if writeId > tree.lastWriteId then
    some
      { visibleWrites := tree.visibleWrites.addCompoundWrite changedChildren path
        allWrites := tree.allWrites ++ [⟨writeId, path, .merge changedChildren, true⟩]
        lastWriteId := writeId }
  else none

/-- The loop of `removeWriteId:` from the index `i - 1` down: whether the removed write was
visible, and whether it overlaps with other ones. -/
def removeLoop (allWrites : List (FWriteRecord V)) (index : Nat)
    (writeToRemove : FWriteRecord V) : Nat → Bool → Bool × Bool
  | 0, overlaps => (true, overlaps)
  | i + 1, overlaps =>
    match allWrites[i]? with
    | none => removeLoop allWrites index writeToRemove i overlaps
    | some currentWrite =>
      if currentWrite.visible then
        if i ≥ index ∧ currentWrite.containsPath writeToRemove.path = true then (false, overlaps)
        else if writeToRemove.path <+: currentWrite.path then
          removeLoop allWrites index writeToRemove i true
        else removeLoop allWrites index writeToRemove i overlaps
      else removeLoop allWrites index writeToRemove i overlaps

/-- The visible writes without those of one record. -/
def removeRecord (visibleWrites : FCompoundWrite V) (record : FWriteRecord V) :
    FCompoundWrite V :=
  match record.write with
  | .overwrite _ => visibleWrites.removeWriteAtPath record.path
  | .merge changedChildren =>
    changedChildren.enumerateWrites.foldl
      (fun visibleWrites x => visibleWrites.removeWriteAtPath (record.path ++ x.1)) visibleWrites

/-- Nothing, where there is no write of this id. -/
def removeWriteId (tree : FWriteTree V) (writeId : Int) : Option (FWriteTree V × Bool) :=
  match tree.allWrites.findIdx? fun record => record.writeId = writeId with
  | none => none
  | some index =>
    match tree.allWrites[index]? with
    | none => none
    | some writeToRemove =>
      let allWrites := tree.allWrites.eraseIdx index
      let scanned :=
        if writeToRemove.visible then
          removeLoop allWrites index writeToRemove allWrites.length false
        else (false, false)
      if scanned.1 = false then some ({ tree with allWrites := allWrites }, false)
      else if scanned.2 then some (resetTree { tree with allWrites := allWrites }, true)
      else
        some ({ tree with
          visibleWrites := removeRecord tree.visibleWrites writeToRemove
          allWrites := allWrites }, true)

def completeWriteDataAtPath (tree : FWriteTree V) (path : FPath) : Option (FNode V) :=
  tree.visibleWrites.completeNodeAtPath path

def calculateCompleteEventCacheAtPath (tree : FWriteTree V) (treePath : FPath)
    (completeServerCache : Option (FNode V)) (writeIdsToExclude : Option (List Int))
    (includeHiddenWrites : Bool) : Option (FNode V) :=
  let subMerge := tree.visibleWrites.childCompoundWriteAtPath treePath
  let layeredCache := completeServerCache.getD .empty
  if writeIdsToExclude = none ∧ includeHiddenWrites = false then
    match tree.visibleWrites.completeNodeAtPath treePath with
    | some shadowingNode => some shadowingNode
    | none =>
      if subMerge.isEmpty then completeServerCache
      else if completeServerCache.isNone ∧ subMerge.hasCompleteWriteAtPath [] = false then none
      else some (subMerge.applyToNode layeredCache)
  else if includeHiddenWrites = false ∧ subMerge.isEmpty = true then completeServerCache
  else if includeHiddenWrites = false ∧ completeServerCache.isNone ∧
      subMerge.hasCompleteWriteAtPath [] = false then none
  else
    let filter (record : FWriteRecord V) : Bool :=
      (record.visible || includeHiddenWrites) &&
        !(writeIdsToExclude.getD []).contains record.writeId &&
        (record.path.isPrefixOf treePath || treePath.isPrefixOf record.path)
    some ((layerTreeFromWrites tree.allWrites filter treePath).applyToNode layeredCache)

/-- All the nodes that the records write, in order. -/
def allNodes (records : List (FWriteRecord V)) : List (FPath × FNode V) :=
  records.flatMap FWriteRecord.writes

/-- What the records write, layer upon layer. -/
def layered (records : List (FWriteRecord V)) : Layer String (FNode V) :=
  addAll FNode.updateChild (allNodes records) Layer.empty

theorem layer_layerRecord (compoundWrite : FCompoundWrite V) (record : FWriteRecord V) :
    (layerRecord [] compoundWrite record).layer =
      addAll FNode.updateChild record.writes compoundWrite.layer := by
  rw [layerRecord, FWriteRecord.writes]
  cases record.write with
  | overwrite node =>
    simp only [List.nil_prefix, if_true, layer_addWrite]
    rfl
  | merge changedChildren =>
    simp only [List.nil_prefix, if_true, layer_addCompoundWrite]
    rfl

theorem addAll_append (ws vs : List (FPath × FNode V)) (f : Layer String (FNode V)) :
    addAll FNode.updateChild (ws ++ vs) f =
      addAll FNode.updateChild vs (addAll FNode.updateChild ws f) :=
  List.foldl_append

theorem layered_concat (records : List (FWriteRecord V)) (record : FWriteRecord V) :
    layered (records ++ [record]) =
      addAll FNode.updateChild record.writes (layered records) := by
  rw [layered, allNodes, List.flatMap_append, List.flatMap_singleton, addAll_append]
  rfl

theorem layer_layerTreeFromWrites (records : List (FWriteRecord V)) :
    (layerTreeFromWrites records defaultFilter []).layer = layered records := by
  have hall : records.filter defaultFilter = records := List.filter_eq_self.mpr fun _ _ => rfl
  rw [layerTreeFromWrites, hall]
  induction records using List.reverseRecOn with
  | nil => exact layer_emptyWrite
  | append_singleton records record ih =>
    rw [List.foldl_append, layered_concat, ← ih (List.filter_eq_self.mpr fun _ _ => rfl)]
    exact layer_layerRecord _ record

theorem layer_removeRecord (visibleWrites : FCompoundWrite V) (record : FWriteRecord V) :
    (removeRecord visibleWrites record).layer =
      removeAll (record.writes.map Prod.fst) visibleWrites.layer := by
  rw [removeRecord, FWriteRecord.writes]
  cases record.write with
  | overwrite node => exact layer_removeWriteAtPath _ _
  | merge changedChildren =>
    change _ = removeAll ((changedChildren.writesAt record.path).map Prod.fst) _
    rw [← layer_foldl_removeWriteAtPath, writesAt, List.map_map, List.foldl_map]
    rfl

/-- A later visible write covers the whole of the record. -/
def Shadowed (record : FWriteRecord V) (later : List (FWriteRecord V)) : Prop :=
  ∃ s ∈ later, s.visible = true ∧ s.containsPath record.path = true

/-- Some visible write is made at or below the path of the record. -/
def Overlapped (record : FWriteRecord V) (others : List (FWriteRecord V)) : Prop :=
  ∃ s ∈ others, s.visible = true ∧ record.path <+: s.path

section Removal

variable (record : FWriteRecord V) (later : List (FWriteRecord V))

instance : Decidable (Shadowed record later) := inferInstanceAs (Decidable (∃ s ∈ later, _))

instance : Decidable (Overlapped record later) := inferInstanceAs (Decidable (∃ s ∈ later, _))

variable (all : List (FWriteRecord V)) (index : Nat) (i n : Nat) (overlaps : Bool)

def ShadowedAt : Prop :=
  index ≤ i ∧ ∃ s, all[i]? = some s ∧ s.visible = true ∧ s.containsPath record.path = true

def OverlappedAt : Prop := ∃ s, all[i]? = some s ∧ s.visible = true ∧ record.path <+: s.path

open Classical in
/-- One round of the loop. -/
theorem removeLoop_succ :
    removeLoop all index record (i + 1) overlaps =
      if ShadowedAt record all index i then (false, overlaps)
      else removeLoop all index record i (overlaps || decide (OverlappedAt record all i)) := by
  rw [removeLoop, ShadowedAt, OverlappedAt]
  cases all[i]? with
  | none => simp
  | some s =>
    by_cases hvisible : s.visible = true
    · by_cases hshadow : index ≤ i ∧ s.containsPath record.path = true
      · simp [hvisible, hshadow]
      · by_cases hpath : record.path <+: s.path
        · simp [hvisible, hshadow, hpath]
        · simp [hvisible, hshadow, hpath]
    · simp [hvisible]

theorem removeLoop_shadowed (h : ∃ i < n, ShadowedAt record all index i) :
    (removeLoop all index record n overlaps).1 = false := by
  induction n generalizing overlaps with
  | zero => simp at h
  | succ n ih =>
    rw [removeLoop_succ]
    split_ifs with hn
    · rfl
    · obtain ⟨i, hi, hshadow⟩ := h
      have hlt : i < n := by
        refine lt_of_le_of_ne (Nat.lt_succ_iff.mp hi) ?_
        intro heq
        exact hn (heq ▸ hshadow)
      exact ih _ ⟨i, hlt, hshadow⟩

open Classical in
theorem removeLoop_visible (h : ¬ ∃ i < n, ShadowedAt record all index i) :
    removeLoop all index record n overlaps =
      (true, overlaps || decide (∃ i < n, OverlappedAt record all i)) := by
  induction n generalizing overlaps with
  | zero => simp [removeLoop]
  | succ n ih =>
    have hn : ¬ ShadowedAt record all index n := fun hn => h ⟨n, n.lt_succ_self, hn⟩
    have hbelow : ¬ ∃ i < n, ShadowedAt record all index i := by
      intro hex
      obtain ⟨i, hi, hshadow⟩ := hex
      exact h ⟨i, hi.trans n.lt_succ_self, hshadow⟩
    rw [removeLoop_succ, if_neg hn, ih _ hbelow, Bool.or_assoc, ← Bool.decide_or]
    have hsplit : (∃ i < n + 1, OverlappedAt record all i) ↔
        OverlappedAt record all n ∨ ∃ i < n, OverlappedAt record all i := by
      simp only [Nat.lt_succ_iff_lt_or_eq, or_and_right, exists_or, exists_eq_left, or_comm]
    simp only [hsplit]

theorem exists_shadowedAt :
    (∃ i < later.length, ShadowedAt record later 0 i) ↔ Shadowed record later := by
  constructor
  · rintro ⟨i, -, -, s, hs, hshadow⟩
    exact ⟨s, List.mem_of_getElem? hs, hshadow⟩
  · rintro ⟨s, hs, hshadow⟩
    obtain ⟨i, hi⟩ := List.getElem?_of_mem hs
    exact ⟨i, (List.getElem?_eq_some_iff.mp hi).1, Nat.zero_le i, s, hi, hshadow⟩

theorem exists_overlappedAt :
    (∃ i < later.length, OverlappedAt record later i) ↔ Overlapped record later := by
  constructor
  · rintro ⟨i, -, s, hs, hpath⟩
    exact ⟨s, List.mem_of_getElem? hs, hpath⟩
  · rintro ⟨s, hs, hpath⟩
    obtain ⟨i, hi⟩ := List.getElem?_of_mem hs
    exact ⟨i, (List.getElem?_eq_some_iff.mp hi).1, s, hi, hpath⟩

/-- The oldest write is removed: a later one may shadow it, or the tree is rebuilt, or the
nodes of the write are taken away. -/
theorem removeWriteId_oldest {tree : FWriteTree V} {record : FWriteRecord V}
    {later : List (FWriteRecord V)} (hall : tree.allWrites = record :: later)
    (hvisible : record.visible = true) :
    removeWriteId tree record.writeId =
      if Shadowed record later then some ({ tree with allWrites := later }, false)
      else if Overlapped record later then
        some (resetTree { tree with allWrites := later }, true)
      else
        some ({ tree with
          visibleWrites := removeRecord tree.visibleWrites record
          allWrites := later }, true) := by
  have hindex : tree.allWrites.findIdx? (fun s => s.writeId = record.writeId) = some 0 := by
    simp [hall, List.findIdx?_cons]
  have hrecord : tree.allWrites[0]? = some record := by simp [hall]
  have hlater : tree.allWrites.eraseIdx 0 = later := by simp [hall]
  simp only [removeWriteId, hindex, hrecord, hlater, hvisible, if_true]
  by_cases hshadow : Shadowed record later
  · have hloop := removeLoop_shadowed record later 0 later.length false
      ((exists_shadowedAt record later).mpr hshadow)
    rw [if_pos hloop, if_pos hshadow]
  · have hloop := removeLoop_visible record later 0 later.length false
      (fun h => hshadow ((exists_shadowedAt record later).mp h))
    simp [hloop, hshadow, exists_overlappedAt]

end Removal

section EventCache

variable {w : FCompoundWrite V} {treePath p : FPath}

/-- Below a complete node one reads what is complete there. -/
theorem getChild_completeNodeAtPath {node : FNode V} (hp : FNode.Plain (treePath ++ p))
    (h : w.completeNodeAtPath treePath = some node) :
    w.completeNodeAtPath (treePath ++ p) = some (node.getChild p) := by
  rw [completeNodeAtPath_eq] at h ⊢
  obtain ⟨⟨r, v⟩, hr, rfl⟩ := Option.map_eq_some_iff.mp h
  obtain ⟨hpre, hval, hclear⟩ := rootMost_some hr
  obtain ⟨s, rfl⟩ := hpre
  have hplain : FNode.Plain s := by
    intro hmem
    exact hp (by simp [hmem])
  rw [complete, rootMost_of_value ((List.prefix_append r s).trans (List.prefix_append _ p)) hval
    hclear, Option.map_some, List.append_assoc, List.drop_left, List.drop_left,
    FNode.getChild_append _ _ _ hplain]

theorem completeNodeAtPath_append (h : w.completeNodeAtPath treePath = none) :
    w.completeNodeAtPath (treePath ++ p) =
      (w.childCompoundWriteAtPath treePath).completeNodeAtPath p := by
  have hnone : rootMost w.layer treePath = none := by
    rw [completeNodeAtPath_eq] at h
    exact Option.map_eq_none_iff.mp h
  rw [completeNodeAtPath_eq, completeNodeAtPath_eq, layer_childCompoundWriteAtPath _ _ h, complete,
    rootMost_append hnone, complete, Option.map_map]
  congr 1
  funext x
  simp

/-- Over the data of the server the event cache shows what the writes leave at a path, and
what the server has where nothing is written. -/
theorem calculateCompleteEventCacheAtPath_reads (tree : FWriteTree V) (server : FNode V)
    (hp : FNode.Plain (treePath ++ p)) :
    ∃ node, tree.calculateCompleteEventCacheAtPath treePath (some server) none false = some node ∧
      (∀ v, tree.completeWriteDataAtPath (treePath ++ p) = some v → node.getChild p = v) ∧
      (Untouched tree.visibleWrites.layer (treePath ++ p) →
        node.getChild p = server.getChild p) := by
  have hplain : FNode.Plain p := hp.suffix (List.suffix_append treePath p)
  simp only [calculateCompleteEventCacheAtPath, completeWriteDataAtPath, and_self, if_true]
  cases hshadow : tree.visibleWrites.completeNodeAtPath treePath with
  | some node =>
    have hbelow := getChild_completeNodeAtPath hp hshadow
    refine ⟨node, rfl, fun v hv => Option.some.inj (hbelow.symm.trans hv), ?_⟩
    intro hu
    have hnone : rootMost tree.visibleWrites.layer (treePath ++ p) = none :=
      rootMost_none.mpr fun q hq => hu q (Or.inl hq)
    rw [completeNodeAtPath_eq, complete, hnone] at hbelow
    cases hbelow
  | none =>
    let subMerge := tree.visibleWrites.childCompoundWriteAtPath treePath
    have hlayer : subMerge.layer = fun q => tree.visibleWrites.layer (treePath ++ q) :=
      layer_childCompoundWriteAtPath _ _ hshadow
    rw [completeNodeAtPath_append hshadow, completeNodeAtPath_eq]
    by_cases hempty : subMerge.isEmpty = true
    · refine ⟨server, if_pos hempty, ?_, fun _ => rfl⟩
      intro v hv
      have hnone : rootMost subMerge.layer p = none := by
        rw [layer_of_isEmpty hempty, rootMost_empty]
      rw [complete, hnone] at hv
      cases hv
    · have hreads := subMerge.applyToNode_reads server hplain
      refine ⟨subMerge.applyToNode server, (if_neg hempty).trans (by simp [subMerge]), ?_, ?_⟩
      · intro v hv
        obtain ⟨⟨r, node⟩, hr, rfl⟩ := Option.map_eq_some_iff.mp hv
        exact hreads.written r node hr
      · intro hu
        refine hreads.kept ?_
        intro q hq
        rw [hlayer]
        exact hu (treePath ++ q) (by simpa only [prefix_append_iff] using hq)

end EventCache

end FWriteTree

end CardPang.Database
