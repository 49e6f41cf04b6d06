import Leetrank.Library.Forest
import Leetrank.Library.InsertionMap
import Leetrank.Strings

namespace Leetrank
set_option autoImplicit true

open Forest InsertionOrder Relation

structure CommentUser where
  id : String
  username : String
  avatar : Option String
deriving DecidableEq

structure CommentRow where
  id : String
  body : String
  parentId : Option String
  createdAt : Int
  user : CommentUser
deriving DecidableEq

/-- A comment with its `replies`. -/
abbrev CommentNode := Rose CommentRow

/-- A node while the tree is being built, with references to the nodes pushed under it. -/
structure NodeObject where
  row : CommentRow
  replies : List Nat

/-- The nodes in the order they were created in, which a reference is a place in. -/
structure TreeBuild where
  nodes : List NodeObject
  byId : InsertionMap String Nat
  roots : List Nat

def TreeBuild.create (b : TreeBuild) (r : CommentRow) : TreeBuild :=
  { b with nodes := b.nodes ++ [⟨r, []⟩], byId := b.byId.set r.id b.nodes.length }

def TreeBuild.place (b : TreeBuild) (r : CommentRow) : TreeBuild :=
  match b.byId.lookup r.id with
  -- The first pass has created a node for every row.
  | none => b
  | some node =>
    match (truthy r.parentId).bind fun id => b.byId.lookup id with
    | some parent =>
      { b with nodes := b.nodes.modify parent fun o => { o with replies := o.replies ++ [node] } }
    | none => { b with roots := b.roots ++ [node] }

def TreeBuild.node (b : TreeBuild) (ref : Nat) : Option (CommentRow × List Nat) :=
  b.nodes[ref]?.map fun o => (o.row, o.replies)

/-- The two passes over the rows. -/
def created (rows : List CommentRow) : TreeBuild := rows.foldl TreeBuild.create ⟨[], ∅, []⟩
def placed (rows : List CommentRow) : TreeBuild := rows.foldl TreeBuild.place (created rows)

/-- The trees that the roots refer to, looked into as deep as there are rows. -/
def buildCommentTree (rows : List CommentRow) : Option (List CommentNode) :=
  (placed rows).roots.mapM (unfold (placed rows).node rows.length)

/-- The row of a list that another one replies to. -/
def parentOf (rows : List CommentRow) (r : CommentRow) : Option CommentRow :=
  r.parentId.bind fun id => rows.find? fun p => p.id = id

def repliesTo (rows : List CommentRow) (p : CommentRow) : List CommentRow :=
  rows.filter fun r => parentOf rows r = some p

def AcyclicLinks (rows : List CommentRow) : Prop :=
  ∀ r ∈ rows, ¬TransGen (fun r p => parentOf rows r = some p) r r

variable {rows : List CommentRow} {r p : CommentRow}

theorem mem_of_parentOf (h : parentOf rows r = some p) : p ∈ rows := by
  obtain ⟨id, -, hfind⟩ := Option.bind_eq_some_iff.1 h
  exact List.mem_of_find?_eq_some hfind

theorem mem_repliesTo : r ∈ repliesTo rows p ↔ r ∈ rows ∧ parentOf rows r = some p := by
  rw [repliesTo, List.mem_filter, decide_eq_true_eq]

theorem created_append (rows : List CommentRow) (r : CommentRow) :
    created (rows ++ [r]) = (created rows).create r := by
  rw [created, List.foldl_append]
  rfl

theorem created_nodes (rows : List CommentRow) :
    (created rows).nodes = rows.map fun p => ⟨p, []⟩ := by
  induction rows using List.reverseRecOn with
  | nil => rfl
  | append_singleton rows r ih =>
    rw [created_append, TreeBuild.create, ih, List.map_append]
    rfl

theorem created_roots (rows : List CommentRow) : (created rows).roots = [] := by
  induction rows using List.reverseRecOn with
  | nil => rfl
  | append_singleton rows r ih =>
    rw [created_append, TreeBuild.create]
    exact ih

/-- After the first pass an id leads to the node of its row. -/
theorem created_byId (h : (rows.map CommentRow.id).Nodup) (id : String) :
    (created rows).byId.lookup id =
      (rows.find? fun p => p.id = id).map fun p => rows.idxOf p := by
  induction rows using List.reverseRecOn with
  | nil => rfl
  | append_singleton rows r ih =>
    rw [List.map_append, List.nodup_append] at h
    obtain ⟨hrows, -, hapart⟩ := h
    have hfresh : ∀ p ∈ rows, p.id ≠ r.id :=
      fun p hp => hapart p.id (List.mem_map_of_mem hp) r.id (List.mem_singleton_self _)
    rw [created_append, TreeBuild.create, InsertionMap.lookup_set, List.find?_append, ih hrows]
    split
    next heq =>
      subst heq
      have hnone : (rows.find? fun p => p.id = r.id) = none :=
        List.find?_eq_none.2 fun p hp => by simpa using hfresh p hp
      have hnot : r ∉ rows := fun hr => hfresh r hr rfl
      rw [hnone, Option.none_or, List.find?_singleton, if_pos (decide_eq_true rfl),
        Option.map_some, List.idxOf_append_of_notMem hnot, List.idxOf_cons_self, created_nodes,
        List.length_map, Nat.add_zero]
    next hne =>
      rw [List.find?_singleton, if_neg (by simpa using Ne.symm hne), Option.or_none]
      apply Option.map_congr
      intro p hp
      exact (List.idxOf_append_of_mem (List.mem_of_find?_eq_some hp)).symm

theorem created_byId_of_mem (h : (rows.map CommentRow.id).Nodup) (hr : r ∈ rows) :
    (created rows).byId.lookup r.id = some (rows.idxOf r) := by
  rw [created_byId h, find?_of_key h hr, Option.map_some]

/-- No row has the empty id, so it makes no difference that the code takes an empty parent id for
none. -/
theorem parentOf_truthy (hne : ∀ r ∈ rows, r.id ≠ "") (r : CommentRow) :
    parentOf rows r = (truthy r.parentId).bind fun id => rows.find? fun p => p.id = id := by
  rw [parentOf, truthy]
  cases r.parentId with
  | none => rfl
  | some id =>
    by_cases hid : id = ""
    · subst hid
      have hnone : (rows.find? fun p => p.id = "") = none :=
        List.find?_eq_none.2 fun p hp => by simpa using hne p hp
      exact hnone
    · rw [Option.filter_some_pos (by simpa using hid)]

theorem created_parent (hids : (rows.map CommentRow.id).Nodup) (hne : ∀ r ∈ rows, r.id ≠ "")
    (r : CommentRow) : ((truthy r.parentId).bind fun id => (created rows).byId.lookup id) =
      (parentOf rows r).map fun p => rows.idxOf p := by
  rw [parentOf_truthy hne, Option.map_bind]
  congr 1
  funext id
  exact created_byId hids id

/-- The nodes of the rows once the second pass has placed some of them. -/
def nodesAfter (rows done : List CommentRow) : List NodeObject := rows.map fun p =>
  ⟨p, (done.filter fun r => parentOf rows r = some p).map fun r => rows.idxOf r⟩

/-- What the second pass has built by then. -/
structure Placed (rows done : List CommentRow) (b : TreeBuild) : Prop where
  byId : b.byId = (created rows).byId
  nodes : b.nodes = nodesAfter rows done
  roots : b.roots = (done.filter fun r => parentOf rows r = none).map fun r => rows.idxOf r

theorem placed_created (rows : List CommentRow) : Placed rows [] (created rows) where
  byId := rfl
  nodes := created_nodes rows
  roots := created_roots rows

/-- A reply goes to the end of those of its parent, and no other node changes. -/
theorem nodesAfter_reply (hnodup : rows.Nodup) {done : List CommentRow}
    (hparent : parentOf rows r = some p) :
    (nodesAfter rows done).modify (rows.idxOf p)
        (fun o => { o with replies := o.replies ++ [rows.idxOf r] }) =
      nodesAfter rows (done ++ [r]) := by
  apply List.ext_getElem?
  intro i
  rw [nodesAfter, nodesAfter, List.getElem?_modify, List.getElem?_map, List.getElem?_map,
    Option.map_eq_map]
  cases hq : rows[i]? with
  | none => rfl
  | some q =>
    obtain ⟨hi, rfl⟩ := List.getElem?_eq_some_iff.1 hq
    have hidx : rows.idxOf rows[i] = i := hnodup.idxOf_getElem i hi
    have hiff : rows.idxOf p = i ↔ p = rows[i] := by
      constructor
      · rintro rfl
        exact (List.getElem_idxOf hi).symm
      · rintro rfl
        exact hidx
    dsimp only [Option.map_some]
    rw [List.filter_append]
    by_cases hp : p = rows[i]
    · have hlast : [r].filter (fun r => parentOf rows r = some rows[i]) = [r] := by
        simp [hparent, hp]
      rw [hlast, if_pos (hiff.2 hp), List.map_append, List.map_singleton]
    · have hlast : [r].filter (fun r => parentOf rows r = some rows[i]) = [] := by
        simp [hparent, hp]
      rw [hlast, if_neg (fun h => hp (hiff.1 h)), List.append_nil]

theorem Placed.place {done : List CommentRow} {b : TreeBuild} (h : Placed rows done b)
    (hids : (rows.map CommentRow.id).Nodup) (hne : ∀ r ∈ rows, r.id ≠ "") (hr : r ∈ rows) :
    Placed rows (done ++ [r]) (b.place r) := by
  have hnode : b.byId.lookup r.id = some (rows.idxOf r) := by
    rw [h.byId, created_byId_of_mem hids hr]
  have hlink : ((truthy r.parentId).bind fun id => b.byId.lookup id) =
      (parentOf rows r).map fun p => rows.idxOf p := by
    rw [h.byId, created_parent hids hne]
  rw [TreeBuild.place, hnode]
  dsimp only
  rw [hlink]
  cases hparent : parentOf rows r with
  | none =>
    constructor
    · exact h.byId
    · rw [Option.map_none]
      dsimp only
      rw [h.nodes]
      simp [nodesAfter, hparent]
    · rw [Option.map_none]
      dsimp only
      rw [h.roots]
      simp [hparent]
  | some p =>
    constructor
    · exact h.byId
    · rw [Option.map_some]
      dsimp only
      rw [h.nodes, nodesAfter_reply hids.of_map hparent]
    · rw [Option.map_some]
      dsimp only
      rw [h.roots]
      simp [hparent]

theorem placed_placed (hids : (rows.map CommentRow.id).Nodup) (hne : ∀ r ∈ rows, r.id ≠ "") :
    Placed rows rows (placed rows) := by
  have hrun : ∀ done rest b, Placed rows done b → rest ⊆ rows →
      Placed rows (done ++ rest) (rest.foldl TreeBuild.place b) := by
    intro done rest
    induction rest generalizing done with
    | nil =>
      intro b h _
      rw [List.append_nil]
      exact h
    | cons r rest ih =>
      intro b h hsub
      rw [List.cons_subset] at hsub
      have hplaced := ih (done ++ [r]) _ (h.place hids hne hsub.1) hsub.2
      rw [List.append_assoc] at hplaced
      exact hplaced
  exact hrun [] rows _ (placed_created rows) (List.Subset.refl rows)

theorem isForest_repliesTo (hids : (rows.map CommentRow.id).Nodup) (hacyclic : AcyclicLinks rows) :
    IsForest rows (repliesTo rows) where
  nodup := hids.of_map
  sublist _ := List.filter_sublist
  mem_of_child x a h := mem_of_parentOf (mem_repliesTo.1 h).2
  parent_unique x a b ha hb :=
    Option.some.inj ((mem_repliesTo.1 ha).2.symm.trans (mem_repliesTo.1 hb).2)
  acyclic a h := by
    obtain ⟨p, hp, -⟩ := TransGen.head'_iff.1 h
    have hlinks : TransGen (fun r p => parentOf rows r = some p) a a :=
      TransGen.mono (fun _ _ hlink => (mem_repliesTo.1 hlink).2) a a h
    exact hacyclic a (mem_repliesTo.1 hp).1 hlinks

theorem placed_node (hids : (rows.map CommentRow.id).Nodup) (hne : ∀ r ∈ rows, r.id ≠ "")
    (hp : p ∈ rows) : (placed rows).node (rows.idxOf p) =
      some (p, (repliesTo rows p).map fun r => rows.idxOf r) := by
  rw [TreeBuild.node, (placed_placed hids hne).nodes, nodesAfter, List.getElem?_map,
    List.getElem?_idxOf hp]
  rfl

/-- Links are acyclic where no parent has a parent. -/
theorem acyclicLinks_of_flat (h : (rows.all fun r => rows.all fun p =>
    parentOf rows r = some p → parentOf rows p = none) = true) : AcyclicLinks rows := by
  intro r hr hcycle
  obtain ⟨p, hp, hpr⟩ := TransGen.head'_iff.1 hcycle
  have hflat := List.all_eq_true.1 (List.all_eq_true.1 h r hr) p (mem_of_parentOf hp)
  have hnone := of_decide_eq_true hflat hp
  rcases hpr.cases_head with rfl | ⟨q, hq, -⟩
  · rw [hp] at hnone
    cases hnone
  · rw [hq] at hnone
    cases hnone

/-- The forest that is built has every row once, below its parent where that is in the list and
at the top where it is not. -/
theorem buildCommentTree_forest (rows : List CommentRow) (hids : (rows.map CommentRow.id).Nodup)
    (hne : ∀ r ∈ rows, r.id ≠ "") (hacyclic : AcyclicLinks rows) :
    ∃ forest, buildCommentTree rows = some forest ∧ (flattenAll forest).Perm rows ∧
      forest.map Rose.label = (rows.filter fun r => parentOf rows r = none) ∧
      ∀ node ∈ forest, node.Follows (repliesTo rows) := by
  have hf := isForest_repliesTo hids hacyclic
  have hsub : (rows.filter fun r => parentOf rows r = none) ⊆ rows := List.filter_subset_self _
  obtain ⟨forest, hforest, hlabels, hfollows⟩ :=
    hf.exists_forest (fun p hp => placed_node hids hne hp) hsub
  refine ⟨forest, ?_, ?_, hlabels, hfollows⟩
  · rw [buildCommentTree, (placed_placed hids hne).roots]
    exact hforest
  · apply hf.perm_flattenAll hfollows
    · rw [hlabels]
      exact hf.nodup.filter _
    · intro a
      rw [hlabels, List.mem_filter, decide_eq_true_eq]
      apply and_congr_right
      intro ha
      constructor
      · intro hnone p hp
        rw [(mem_repliesTo.1 hp).2] at hnone
        cases hnone
      · intro h
        rw [Option.eq_none_iff_forall_ne_some]
        exact fun p hp => h p (mem_repliesTo.2 ⟨ha, hp⟩)

/-- A reply that comes before its parent, and one whose parent is not there. -/
def threeComments : List CommentRow :=
  let user := ⟨"u1", "ada", none⟩
  [⟨"c2", "Agreed.", some "c1", 2, user⟩, ⟨"c1", "First!", none, 1, user⟩,
    ⟨"c3", "Me too.", some "c0", 3, user⟩]

theorem buildCommentTree_threeComments :
    ∃ forest, buildCommentTree threeComments = some forest ∧
      (flattenAll forest).Perm threeComments ∧
      forest.map (fun node => node.label.id) = ["c1", "c3"] ∧
      ∀ node ∈ forest, node.Follows (repliesTo threeComments) := by
  obtain ⟨forest, hforest, hperm, hroots, hfollows⟩ :=
    buildCommentTree_forest threeComments (by decide) (by decide)
      (acyclicLinks_of_flat (by decide +kernel))
  refine ⟨forest, hforest, hperm, ?_, hfollows⟩
  have hids := congrArg (List.map CommentRow.id) hroots
  rw [List.map_map] at hids
  exact hids.trans (by decide +kernel)

end Leetrank
