import Ferrugem.DirectoryNames
import Ferrugem.FileTrees
import Ferrugem.Truncation
import Ferrugem.Library.Refinements

/-!
# The inodes are a tree of names

The used inodes with their parents and names form the tree that the operations
of `FileTrees` change: every operation of `RamFs` does to the tree of its
inodes what the operation on trees does, and answers the same. What has to be
kept from an operation is what the code does not check: a working directory
that was removed, an attachment to a file or below the moved directory itself,
a name that is empty or too long, a hole.
-/

namespace Ferrugem.FileTreeRefinement

open Ferrugem.RamFsModel Ferrugem.DirectoryParents Ferrugem.DirectoryNames
open Ferrugem.PathResolution Ferrugem.FileTrees
open NamedTrees

set_option autoImplicit false

def links (fs : RamFs) : Links InodeIndex Bytes where
  root := rootInode
  used := fun i => (fs.inodes i).used = true
  parent := fun i => (fs.inodes i).parent
  name := fun i => (fs.inodes i).name

def nodeOf (inode : Inode) : Node where
  kind := inode.kind
  uid := inode.uid
  gid := inode.gid
  mode := inode.mode
  content := (List.range inode.size).map inode.data

def nodes (fs : RamFs) (idx : InodeIndex) : Node := nodeOf (fs.inodes idx)

noncomputable def view (fs : RamFs) : FileTree := treeOf (links fs) (nodes fs)

def locationOf (fs : RamFs) (idx : InodeIndex) : Location := (links fs).locate maxInodes idx

def requestOf (fs : RamFs) : Operation → Request
  | .mkdir path cwd uid gid mode => .mkdir path (locationOf fs cwd) uid gid mode
  | .rmdir path cwd uid gid => .rmdir path (locationOf fs cwd) uid gid
  | .touch path cwd uid gid => .touch path (locationOf fs cwd) uid gid
  | .write path cwd content uid gid => .write path (locationOf fs cwd) content uid gid
  | .unlink path cwd uid gid => .unlink path (locationOf fs cwd) uid gid
  | .rename srcPath dstPath cwd uid gid => .rename srcPath dstPath (locationOf fs cwd) uid gid
  | .chmod path cwd mode callerUid => .chmod path (locationOf fs cwd) mode callerUid
  | .chown path cwd newUid newGid callerUid =>
      .chown path (locationOf fs cwd) newUid newGid callerUid
  | .inodeWrite idx offset content =>
      .patch (if (fs.inodes idx).used then some (locationOf fs idx) else none) offset content

/-- The name is stored whole, a moved inode does not get below itself, and
nothing is written behind the end of the file. This is asked of `mkdir` and `rename`
also where they refuse the call. -/
def KeepsForm (fs : RamFs) : Operation → Prop
  | .mkdir path _ _ _ _ => lastName path ≠ [] ∧ (lastName path).length ≤ maxName
  | .touch path cwd _ _ => fs.resolve path cwd = none → (lastName path).length ≤ maxName
  | .write path cwd _ _ _ => fs.resolve path cwd = none → (lastName path).length ≤ maxName
  | .rename srcPath dstPath cwd _ _ =>
      lastName dstPath ≠ [] ∧ (lastName dstPath).length ≤ maxName ∧
        ∀ src ∈ fs.resolve srcPath cwd, ∀ dir ∈ fs.resolveParent dstPath cwd,
          ¬locationOf fs src <:+ locationOf fs dir
  | .inodeWrite idx offset content =>
      (fs.inodes idx).used = true →
        offset ≤ (fs.inodes idx).size ∧ offset + content.length < 2 ^ 64
  | _ => True

def Regular (fs : RamFs) (operation : Operation) : Prop :=
  inDirectory fs operation = true ∧
    (∀ parent ∈ attachesAt fs operation, (fs.inodes parent).kind = .dir) ∧
      KeepsForm fs operation

instance decidableKeepsForm (fs : RamFs) : ∀ operation, Decidable (KeepsForm fs operation)
  | .mkdir _ _ _ _ _ => inferInstanceAs (Decidable (_ ∧ _))
  | .touch _ _ _ _ => inferInstanceAs (Decidable (_ → _))
  | .write _ _ _ _ _ => inferInstanceAs (Decidable (_ → _))
  | .rename srcPath dstPath cwd _ _ =>
      inferInstanceAs (Decidable (_ ∧ _ ∧ ∀ src ∈ fs.resolve srcPath cwd,
        ∀ dir ∈ fs.resolveParent dstPath cwd, ¬locationOf fs src <:+ locationOf fs dir))
  | .inodeWrite _ _ _ => inferInstanceAs (Decidable (_ → _))
  | .rmdir _ _ _ _ => isTrue trivial
  | .unlink _ _ _ _ => isTrue trivial
  | .chmod _ _ _ _ => isTrue trivial
  | .chown _ _ _ _ _ => isTrue trivial

instance decidableRegular (fs : RamFs) (operation : Operation) :
    Decidable (Regular fs operation) :=
  inferInstanceAs (Decidable (_ ∧ (∀ parent ∈ attachesAt fs operation, _) ∧ _))

structure Arranged (fs : RamFs) : Prop where
  hierarchy : Hierarchy (links fs)
  shaped : ParentsAreDirs fs

abbrev Found (fs : RamFs) : Option InodeIndex → Option Location → Prop :=
  Option.Rel fun idx loc => At (links fs) loc idx

section

variable {fs : RamFs} {idx dir cwd : InodeIndex} {loc cwdLoc : Location} {path name : Bytes}

theorem location_eq (located : At (links fs) loc idx) : locationOf fs idx = loc :=
  locate_eq located (by
    have short := at_length_lt located
    rw [Fintype.card_fin] at short
    exact short.le)

theorem location_at (arranged : Arranged fs) (isUsed : (fs.inodes idx).used = true) :
    At (links fs) (locationOf fs idx) idx := by
  obtain ⟨loc, located⟩ := arranged.hierarchy.attached idx isUsed
  rw [location_eq located]
  exact located

theorem parent_at (arranged : Arranged fs) (located : At (links fs) loc idx) :
    At (links fs) loc.tail (fs.inodes idx).parent := by
  cases located with
  | root =>
      show At (links fs) [] (fs.inodes rootInode).parent
      rw [arranged.shaped.root.2]
      exact .root
  | entry _ _ above => exact above

theorem lookup_finds (arranged : Arranged fs) (above : At (links fs) loc dir) (name : Bytes) :
    Found fs (fs.lookupIn dir name) ((view fs).findIn loc name) := by
  unfold RamFs.lookupIn FileTree.findIn stepOf
  split_ifs with isDot isDotDot
  · exact .some above
  · exact .some (parent_at arranged above)
  · have down : (view fs).follow loc [.down name] =
        if (view fs (name :: loc)).isSome then some (name :: loc) else none := rfl
    rw [down]
    cases found : (List.finRange maxInodes).find? fun i =>
        (fs.inodes i).used && (fs.inodes i).parent == dir && i != dir &&
          (fs.inodes i).name == name with
    | some idx =>
        have matched := List.find?_some found
        simp only [Bool.and_eq_true, beq_iff_eq, bne_iff_ne] at matched
        obtain ⟨⟨⟨isUsed, below⟩, different⟩, named⟩ := matched
        have notRoot : idx ≠ rootInode := by
          rintro rfl
          rw [arranged.shaped.root.2] at below
          exact different below
        have parentAt : At (links fs) loc (fs.inodes idx).parent := by
          rw [below]
          exact above
        have entry : At (links fs) (name :: loc) idx :=
          at_cons_iff.mpr ⟨isUsed, notRoot, named, parentAt⟩
        have present : (view fs (name :: loc)).isSome = true :=
          tree_of_is_some_iff.mpr ⟨idx, entry⟩
        rw [if_pos present]
        exact .some entry
    | none =>
        rw [if_neg]
        · exact .none
        · intro present
          obtain ⟨idx, entry⟩ := tree_of_is_some_iff.mp present
          obtain ⟨isUsed, -, named, below⟩ := at_cons_iff.mp entry
          have parent : (fs.inodes idx).parent = dir := same_index arranged.hierarchy below above
          have different : idx ≠ dir := by
            rintro rfl
            exact List.cons_ne_self name loc (same_location entry above)
          apply List.find?_eq_none.mp found idx (List.mem_finRange idx)
          have isNamed : (fs.inodes idx).name = name := named
          have usedHere : (fs.inodes idx).used = true := isUsed
          simp [usedHere, parent, different, isNamed]

theorem name_free_at (arranged : Arranged fs) (above : At (links fs) loc dir)
    (absent : fs.lookupIn dir name = none) : ∀ i, ¬At (links fs) (name :: loc) i := by
  intro i entry
  obtain ⟨isUsed, -, named, below⟩ := at_cons_iff.mp entry
  apply lookup_misses_none absent isUsed (same_index arranged.hierarchy below above) _ named
  rintro rfl
  exact List.cons_ne_self name loc (same_location entry above)

theorem file_childless (arranged : Arranged fs) (located : At (links fs) loc idx)
    (isFile : (fs.inodes idx).kind ≠ .dir) : ∀ name i, ¬At (links fs) (name :: loc) i := by
  intro name i entry
  obtain ⟨isUsed, notRoot, -, below⟩ := at_cons_iff.mp entry
  have parent := (is_directory_iff.mp (arranged.shaped.parents i notRoot isUsed)).2
  rw [show (fs.inodes i).parent = idx from same_index arranged.hierarchy below located] at parent
  exact isFile parent

theorem walk_finds (arranged : Arranged fs) (above : At (links fs) loc dir)
    (components : List Bytes) :
    Found fs (fs.walk dir components)
      ((view fs).follow loc ((components.filter (· ≠ [])).map stepOf)) := by
  induction components generalizing dir loc with
  | nil => exact .some above
  | cons part rest ih =>
      by_cases empty : part = []
      · rw [List.filter_cons_of_neg (by simp [empty]), RamFs.walk, if_pos (.inl empty)]
        exact ih above
      · have walked : fs.walk dir (part :: rest) =
            (fs.lookupIn dir part).bind fun next => fs.walk next rest := by
          rw [RamFs.walk]
          split_ifs with skipped
          · rw [skipped.resolve_left empty]
            rfl
          · rfl
        rw [walked, List.filter_cons_of_pos (by simp [empty]), List.map_cons, Tree.follow_cons]
        have first := lookup_finds arranged above part
        unfold FileTree.findIn at first
        generalize fs.lookupIn dir part = found at first ⊢
        generalize (view fs).follow loc [stepOf part] = reached at first ⊢
        cases first with
        | some entry => exact ih entry
        | none => exact .none

theorem start_at (above : At (links fs) cwdLoc cwd) (path : Bytes) :
    At (links fs) (start path cwdLoc) (RamFs.walkStart path cwd) := by
  unfold start RamFs.walkStart
  split_ifs
  · exact .root
  · exact above

theorem resolve_finds (arranged : Arranged fs) (above : At (links fs) cwdLoc cwd)
    (path : Bytes) : Found fs (fs.resolve path cwd) ((view fs).find path cwdLoc) := by
  rw [resolve_eq_walk]
  exact walk_finds arranged (start_at above path) (path.splitOn slash)

theorem parts_append (before after : Bytes) :
    parts (before ++ slash :: after) = parts before ++ parts after := by
  unfold parts
  rw [split_append_slash, List.filter_append]

theorem parts_trimmed (path : Bytes) : parts (trimmed path) = parts path := by
  unfold trimmed
  induction path using List.reverseRecOn with
  | nil => rfl
  | append_singleton rest byte ih =>
      by_cases isSlash : byte = slash
      · rw [List.rdropWhile_concat_pos _ _ _ (by simp [isSlash]), ih, isSlash, parts_append]
        exact (List.append_nil _).symm
      · rw [List.rdropWhile_concat_neg _ _ _ (by simpa using isSlash)]

theorem parts_eq (named : lastName path ≠ []) :
    parts path = parts (front path).dropLast ++ [lastName path] := by
  have last : parts (lastName path) = [lastName path] := by
    unfold parts
    rw [split_no_slash fun _ => last_name_no_slash]
    simp [named]
  rw [← parts_trimmed path, ← front_append_last_name]
  by_cases whole : front path = []
  · rw [whole, List.nil_append, last]
    rfl
  · nth_rewrite 1 [front_ends_in_slash whole]
    rw [List.append_assoc, List.singleton_append, parts_append, last]

theorem name_of_eq (named : lastName path ≠ []) : nameOf path = lastName path := by
  rw [nameOf, parts_eq named, List.getLastD_concat]

theorem parent_walk (named : lastName path ≠ []) (cwd : InodeIndex) :
    fs.resolveParent path cwd =
      fs.walk (RamFs.walkStart path cwd) ((front path).dropLast.splitOn slash) := by
  by_cases whole : front path = []
  · have name : lastName path = trimmed path := by
      rw [← front_append_last_name, whole, List.nil_append]
    have relative : RamFs.walkStart path cwd = cwd := by
      unfold RamFs.walkStart
      rw [← trimmed_head (name ▸ named), ← name, if_neg]
      intro isSlash
      exact last_name_no_slash (List.mem_of_head? isSlash) rfl
    unfold RamFs.resolveParent
    rw [parent_path_eq, if_pos whole, whole, relative]
    rfl
  · exact resolve_parent_eq_walk fs cwd whole

theorem directory_finds (arranged : Arranged fs) (above : At (links fs) cwdLoc cwd)
    (named : lastName path ≠ []) :
    Found fs (fs.resolveParent path cwd) ((view fs).findDirectory path cwdLoc) := by
  unfold FileTree.findDirectory
  rw [parent_walk named, parts_eq named, List.dropLast_concat]
  exact walk_finds arranged (start_at above path) _

theorem view_at (arranged : Arranged fs) (located : At (links fs) loc idx) :
    view fs loc = some (nodeOf (fs.inodes idx)) :=
  tree_of_at arranged.hierarchy located

theorem is_dir_at (arranged : Arranged fs) (located : At (links fs) loc idx) :
    (view fs).isDir loc = ((fs.inodes idx).kind == .dir) := by
  rw [FileTree.isDir, view_at arranged located]
  rfl

theorem perm_grants (fs : RamFs) (idx : InodeIndex) (uid gid op : BitVec 16) :
    fs.perm idx uid gid op = (nodeOf (fs.inodes idx)).grants uid gid op := by
  unfold RamFs.perm Node.grants nodeOf
  by_cases isRoot : uid = 0
  · rw [if_pos isRoot, isRoot]
    rfl
  · rw [if_neg isRoot, beq_eq_false_iff_ne.mpr isRoot]
    rfl

theorem allows_at (arranged : Arranged fs) (located : At (links fs) loc idx)
    (uid gid op : BitVec 16) : (view fs).allows loc uid gid op = fs.perm idx uid gid op := by
  rw [FileTree.allows, view_at arranged located, perm_grants]
  rfl

theorem owns_at (arranged : Arranged fs) (located : At (links fs) loc idx) (uid : BitVec 16) :
    (view fs).owns loc uid = ((fs.inodes idx).uid == uid) := by
  rw [FileTree.owns, view_at arranged located]
  rfl

theorem content_set (inode : Inode) (content : Bytes) :
    nodeOf (inode.setContent content) =
      { nodeOf inode with content := content.take maxData } := by
  have stored : (List.range (min content.length maxData)).map (inode.setContent content).data =
      content.take (min content.length maxData) := by
    rw [← Truncation.range_get_take (Nat.min_le_left _ _)]
    apply List.map_congr_left
    intro i member
    exact if_pos (List.mem_range.mp member)
  have same : content.take (min content.length maxData) = content.take maxData := by
    rw [Nat.min_comm, ← List.take_take, List.take_length]
  unfold nodeOf
  congr 1
  exact stored.trans same

theorem nodes_set (fs : RamFs) (idx : InodeIndex) (inode : Inode) :
    nodes (fs.setInode idx inode) = Function.update (nodes fs) idx (nodeOf inode) := by
  funext i
  by_cases here : i = idx
  · rw [here, Function.update_self, nodes, set_inode_same]
  · rw [Function.update_of_ne here, nodes, nodes, set_inode_other fs inode here]

theorem links_same {after : RamFs} (same : SamePlaces fs after) : links after = links fs := by
  unfold links
  simp only [same.used, same.parent, same.name]

theorem links_set {inode : Inode} (isUsed : inode.used = true) :
    links (fs.setInode idx inode) = (links fs).attach idx inode.parent inode.name := by
  have each : ∀ i, (fs.setInode idx inode).inodes i = if i = idx then inode else fs.inodes i := by
    intro i
    by_cases here : i = idx
    · rw [if_pos here, here, set_inode_same]
    · rw [if_neg here, set_inode_other fs inode here]
  refine Links.ext rfl ?_ ?_ ?_
  · funext i
    by_cases here : i = idx <;> simp [links, Links.attach, each, here, isUsed]
  · funext i
    by_cases here : i = idx <;> simp [links, Links.attach, each, here]
  · funext i
    by_cases here : i = idx <;> simp [links, Links.attach, each, here]

theorem release_inode (fs : RamFs) (idx i : InodeIndex) :
    (fs.release idx).inodes i =
      if i = idx then { fs.inodes idx with used := false } else fs.inodes i := by
  by_cases here : i = idx
  · rw [if_pos here, here, RamFs.release, RamFs.modify, set_inode_same]
  · rw [if_neg here, RamFs.release, RamFs.modify, set_inode_other fs _ here]

theorem links_release (fs : RamFs) (idx : InodeIndex) :
    links (fs.release idx) = (links fs).detach idx := by
  refine Links.ext rfl ?_ ?_ ?_
  · funext i
    by_cases here : i = idx <;> simp [links, Links.detach, release_inode, here]
  · funext i
    by_cases here : i = idx <;> simp [links, Links.detach, release_inode, here]
  · funext i
    by_cases here : i = idx <;> simp [links, Links.detach, release_inode, here]

theorem nodes_release (fs : RamFs) (idx : InodeIndex) : nodes (fs.release idx) = nodes fs := by
  funext i
  rw [nodes, nodes, release_inode]
  by_cases here : i = idx
  · rw [if_pos here, here]
    rfl
  · rw [if_neg here]

theorem used_of_full (full : fs.alloc = none) (notRoot : idx ≠ rootInode) :
    (fs.inodes idx).used = true := by
  have member : idx ∈ (List.finRange maxInodes).tail := by
    revert notRoot
    revert idx
    decide
  simpa using List.find?_eq_none.mp full idx member

theorem has_room_iff (arranged : Arranged fs) : (view fs).HasRoom ↔ fs.alloc.isSome = true := by
  have whole : (Set.univ : Set InodeIndex).ncard = maxInodes := by
    rw [Set.ncard_univ, Nat.card_eq_fintype_card, Fintype.card_fin]
  unfold FileTree.HasRoom view
  rw [card_locations arranged.hierarchy]
  constructor
  · intro room
    by_contra full
    rw [Option.isSome_iff_ne_none, not_not] at full
    have all : {idx | (links fs).used idx} = Set.univ := by
      rw [Set.eq_univ_iff_forall]
      intro i
      by_cases isRoot : i = rootInode
      · rw [isRoot]
        exact arranged.hierarchy.root
      · exact used_of_full full isRoot
    rw [all, whole] at room
    exact lt_irrefl _ room
  · intro vacant
    obtain ⟨idx, found⟩ := Option.isSome_iff_exists.mp vacant
    rw [← whole]
    apply Set.ncard_lt_ncard _ (Set.toFinite _)
    rw [Set.ssubset_univ_iff]
    intro all
    have isUsed : (fs.inodes idx).used = true := Set.eq_univ_iff_forall.mp all idx
    rw [(alloc_unused found).1] at isUsed
    cases isUsed

/-- What is left is a tree again, the one that the operation on trees gives, and
the answers are the same. -/
def Agrees (spec : FileTree × Bool) (result : RamFs × Bool) : Prop :=
  Hierarchy (links result.1) ∧ spec = (view result.1, result.2)

theorem refused (arranged : Arranged fs) (answer : Bool) : Agrees (view fs, answer) (fs, answer) :=
  ⟨arranged.hierarchy, rfl⟩

theorem modified (arranged : Arranged fs) (located : At (links fs) loc idx)
    {change : Inode → Inode} {alter : Node → Node}
    (places : ∀ inode, (change inode).used = inode.used ∧ (change inode).kind = inode.kind ∧
      (change inode).parent = inode.parent ∧ (change inode).name = inode.name)
    (node : nodeOf (change (fs.inodes idx)) = alter (nodeOf (fs.inodes idx))) :
    Agrees ((view fs).modify loc alter, true) (fs.modify idx change, true) := by
  have same : links (fs.modify idx change) = links fs :=
    links_same (modify_same_places places)
  constructor
  · rw [same]
    exact arranged.hierarchy
  · have changed : view (fs.modify idx change) = (view fs).modify loc alter := by
      unfold view
      rw [same, RamFs.modify, nodes_set, tree_of_update arranged.hierarchy located, node,
        Tree.modify, tree_of_at arranged.hierarchy located]
      rfl
    rw [changed]

theorem created (arranged : Arranged fs) (above : At (links fs) loc dir)
    (absent : fs.lookupIn dir name = none) (fits : name.length ≤ maxName) (kind : InodeKind)
    (uid gid mode : BitVec 16) (content : Bytes) :
    Agrees ((view fs).insert (name :: loc) ⟨kind, uid, gid, mode, content.take maxData⟩)
      (fs.create kind dir uid gid mode name content) := by
  have room := has_room_iff arranged
  unfold RamFs.create FileTree.insert
  cases vacant : fs.alloc with
  | none =>
      rw [vacant] at room
      rw [if_neg (mt room.mp (by decide))]
      exact refused arranged false
  | some idx =>
      rw [vacant] at room
      rw [if_pos (room.mpr rfl)]
      have unused : ¬(links fs).used idx := by
        simp [links, (alloc_unused vacant).1]
      have fresh := name_free_at arranged above absent
      have stored : name.take maxName = name := List.take_of_length_le fits
      have shape : links (fs.setInode idx
          ((RamFs.newInode kind dir uid gid mode name).setContent content)) =
            (links fs).attach idx dir name := by
        rw [links_set rfl]
        show (links fs).attach idx dir (name.take maxName) = _
        rw [stored]
      constructor
      · show Hierarchy (links _)
        rw [shape]
        exact hierarchy_attach_new arranged.hierarchy unused above fresh
      · show _ = (treeOf (links _) (nodes _), true)
        rw [shape, nodes_set, content_set,
          tree_attach_new arranged.hierarchy unused above fresh]
        rfl

theorem released (arranged : Arranged fs) (located : At (links fs) loc idx)
    (notRoot : idx ≠ rootInode) (empty : ∀ name i, ¬At (links fs) (name :: loc) i) :
    Agrees ((view fs).remove loc, true) (fs.release idx, true) := by
  constructor
  · show Hierarchy (links _)
    rw [links_release]
    exact hierarchy_detach arranged.hierarchy notRoot located empty
  · show _ = (treeOf (links _) (nodes _), true)
    rw [links_release, nodes_release, tree_detach arranged.hierarchy notRoot located empty]
    rfl

theorem moved {base : RamFs} {src : InodeIndex} {srcLoc : Location}
    (hierarchy : Hierarchy (links base)) (may : MayMove (links base) src dir srcLoc loc name)
    (fits : name.length ≤ maxName) :
    Hierarchy (links (base.move src dir name)) ∧
      view (base.move src dir name) = (view base).relocate srcLoc (name :: loc) := by
  have isUsed : (base.inodes src).used = true := at_used hierarchy may.located
  have shape : links (base.move src dir name) = (links base).attach src dir name := by
    rw [RamFs.move, RamFs.modify, links_set (by exact isUsed)]
    show (links base).attach src dir (name.take maxName) = _
    rw [List.take_of_length_le fits]
  have same : nodes (base.move src dir name) = nodes base := by
    rw [RamFs.move, RamFs.modify, nodes_set]
    exact Function.update_eq_self src (nodes base)
  unfold view
  rw [shape, same]
  exact ⟨hierarchy_moved hierarchy may, tree_moved hierarchy may⟩

theorem named_of_absent (absent : fs.resolve path cwd = none) : lastName path ≠ [] := by
  intro noName
  rw [resolve_eq_walk, ← walk_trailing, trimmed_of_no_name noName] at absent
  cases absent

theorem no_directory_agrees (arranged : Arranged fs) (above : At (links fs) cwdLoc cwd)
    (absent : fs.resolve path cwd = none) (resolved : fs.resolveParent path cwd = none)
    (content : Bytes) (uid gid : BitVec 16) :
    Agrees ((view fs).createFile path cwdLoc content uid gid) (fs, false) := by
  have found := directory_finds arranged above (named_of_absent absent)
  rw [resolved] at found
  unfold FileTree.createFile
  generalize (view fs).findDirectory path cwdLoc = reached at found ⊢
  cases found
  exact refused arranged false

theorem create_file_agrees (arranged : Arranged fs) (above : At (links fs) cwdLoc cwd)
    (absent : fs.resolve path cwd = none) (resolved : fs.resolveParent path cwd = some dir)
    (fits : (lastName path).length ≤ maxName) (content : Bytes) (uid gid : BitVec 16) :
    Agrees ((view fs).createFile path cwdLoc content uid gid)
      (if !fs.perm dir uid gid 2#16 then (fs, false)
      else fs.create .file dir uid gid 0o644#16 (splitParent path).2 content) := by
  have named := named_of_absent absent
  have found := directory_finds arranged above named
  have free := (create_absent absent resolved).2
  rw [resolved] at found
  unfold FileTree.createFile
  rw [name_of_eq named, split_parent_name]
  generalize (view fs).findDirectory path cwdLoc = reached at found ⊢
  cases found with
  | some located =>
      dsimp only
      rw [allows_at arranged located]
      cases allowed : fs.perm dir uid gid 2#16 with
      | false => exact refused arranged false
      | true => exact created arranged located free fits .file uid gid 0o644#16 content

theorem write_agrees (arranged : Arranged fs) (above : At (links fs) cwdLoc cwd)
    (fits : fs.resolve path cwd = none → (lastName path).length ≤ maxName) (content : Bytes)
    (uid gid : BitVec 16) :
    Agrees ((view fs).write path cwdLoc content uid gid) (fs.write path cwd content uid gid) := by
  have found := resolve_finds arranged above path
  unfold RamFs.write FileTree.write
  cases resolved : fs.resolve path cwd with
  | none =>
      rw [resolved] at found
      generalize (view fs).find path cwdLoc = reached at found ⊢
      cases found
      cases parent : fs.resolveParent path cwd with
      | none => exact no_directory_agrees arranged above resolved parent content uid gid
      | some dir =>
          exact create_file_agrees arranged above resolved parent (fits resolved) content uid gid
  | some idx =>
      rw [resolved] at found
      generalize (view fs).find path cwdLoc = reached at found ⊢
      cases found with
      | some located =>
          dsimp only
          rw [is_dir_at arranged located, allows_at arranged located]
          by_cases isDir : (fs.inodes idx).kind = .dir
          · rw [if_pos isDir, if_neg (by simp [isDir])]
            exact refused arranged false
          · rw [if_neg isDir]
            cases allowed : fs.perm idx uid gid 2#16 with
            | false =>
                rw [if_neg (by simp)]
                exact refused arranged false
            | true =>
                rw [if_pos (by simp [isDir]), if_neg (by simp)]
                exact modified arranged located (fun _ => ⟨rfl, rfl, rfl, rfl⟩) (content_set _ _)

theorem touch_agrees (arranged : Arranged fs) (above : At (links fs) cwdLoc cwd)
    (fits : fs.resolve path cwd = none → (lastName path).length ≤ maxName)
    (uid gid : BitVec 16) :
    Agrees ((view fs).touch path cwdLoc uid gid) (fs.touch path cwd uid gid) := by
  have found := resolve_finds arranged above path
  unfold RamFs.touch FileTree.touch
  cases resolved : fs.resolve path cwd with
  | none =>
      rw [resolved] at found
      generalize (view fs).find path cwdLoc = reached at found ⊢
      cases found
      cases parent : fs.resolveParent path cwd with
      | none => exact no_directory_agrees arranged above resolved parent [] uid gid
      | some dir =>
          exact create_file_agrees arranged above resolved parent (fits resolved) [] uid gid
  | some idx =>
      rw [resolved] at found
      generalize (view fs).find path cwdLoc = reached at found ⊢
      cases found
      exact refused arranged true

theorem mkdir_agrees (arranged : Arranged fs) (above : At (links fs) cwdLoc cwd)
    (named : lastName path ≠ []) (fits : (lastName path).length ≤ maxName)
    (uid gid mode : BitVec 16) :
    Agrees ((view fs).mkdir path cwdLoc uid gid mode) (fs.mkdir path cwd uid gid mode) := by
  have found := directory_finds arranged above named
  unfold RamFs.mkdir FileTree.mkdir
  rw [name_of_eq named, split_parent_name]
  generalize fs.resolveParent path cwd = resolved at found ⊢
  generalize (view fs).findDirectory path cwdLoc = reached at found ⊢
  cases found with
  | none => exact refused arranged false
  | @some dir loc located =>
      have present := lookup_finds arranged located (lastName path)
      dsimp only
      rw [is_dir_at arranged located, allows_at arranged located]
      by_cases isDir : (fs.inodes dir).kind = .dir
      · rw [if_neg (not_not.mpr isDir)]
        cases allowed : fs.perm dir uid gid 2#16 with
        | false =>
            rw [if_neg (by simp)]
            exact refused arranged false
        | true =>
            cases absent : fs.lookupIn dir (lastName path) with
            | some other =>
                rw [absent] at present
                generalize (view fs).findIn loc (lastName path) = entry at present ⊢
                cases present
                rw [if_neg (by simp)]
                exact refused arranged false
            | none =>
                rw [absent] at present
                generalize (view fs).findIn loc (lastName path) = entry at present ⊢
                cases present
                rw [if_pos (by simp [isDir])]
                exact created arranged located absent fits .dir uid gid (mode &&& 0o777) []
      · rw [if_pos isDir, if_neg (by simp [isDir])]
        exact refused arranged false

theorem root_iff (located : At (links fs) loc idx) : loc = [] ↔ idx = rootInode := by
  constructor
  · intro empty
    rw [empty] at located
    exact at_nil_iff.mp located
  · intro isRoot
    rw [isRoot] at located
    exact at_root_of_nil located

theorem empty_iff (arranged : Arranged fs) (located : At (links fs) loc idx)
    (notRoot : idx ≠ rootInode) : (view fs).IsEmpty loc ↔ fs.hasChild idx = false := by
  unfold FileTree.IsEmpty RamFs.hasChild
  rw [List.any_eq_false]
  constructor
  · intro empty i _ child
    simp only [Bool.and_eq_true, bne_iff_ne, beq_iff_eq] at child
    obtain ⟨⟨different, isUsed⟩, parent⟩ := child
    have childNotRoot : i ≠ rootInode := by
      rintro rfl
      rw [arranged.shaped.root.2] at parent
      exact notRoot parent.symm
    have entry : At (links fs) ((fs.inodes i).name :: loc) i :=
      at_cons_iff.mpr ⟨isUsed, childNotRoot, rfl, by
        show At (links fs) loc (fs.inodes _).parent
        rw [parent]
        exact located⟩
    exact tree_of_none_iff.mp (empty _) i entry
  · intro childless name
    refine tree_of_none_iff.mpr fun i entry => childless i (List.mem_finRange i) ?_
    obtain ⟨isUsed, childNotRoot, -, below⟩ := at_cons_iff.mp entry
    have parent : (fs.inodes i).parent = idx := same_index arranged.hierarchy below located
    have usedHere : (fs.inodes i).used = true := isUsed
    have different : i ≠ idx := by
      rintro rfl
      exact List.cons_ne_self name loc (same_location entry located)
    simp [usedHere, parent, different]

theorem rmdir_agrees (arranged : Arranged fs) (above : At (links fs) cwdLoc cwd)
    (path : Bytes) (uid gid : BitVec 16) :
    Agrees ((view fs).rmdir path cwdLoc uid gid) (fs.rmdir path cwd uid gid) := by
  have found := resolve_finds arranged above path
  unfold RamFs.rmdir FileTree.rmdir
  generalize fs.resolve path cwd = resolved at found ⊢
  generalize (view fs).find path cwdLoc = reached at found ⊢
  cases found with
  | none => exact refused arranged false
  | @some idx loc located =>
      dsimp only
      rw [is_dir_at arranged located, allows_at arranged (parent_at arranged located)]
      by_cases isRoot : idx = rootInode
      · rw [if_pos isRoot, if_neg (fun may => may.1 ((root_iff located).mpr isRoot))]
        exact refused arranged false
      · rw [if_neg isRoot, empty_iff arranged located isRoot]
        have notNil : loc ≠ [] := mt (root_iff located).mp isRoot
        by_cases isDir : (fs.inodes idx).kind = .dir
        · rw [if_neg (not_not.mpr isDir)]
          cases occupied : fs.hasChild idx with
          | true =>
              rw [if_neg (by simp), if_pos rfl]
              exact refused arranged false
          | false =>
              cases allowed : fs.perm (fs.inodes idx).parent uid gid 2#16 with
              | false =>
                  rw [if_neg (by simp), if_neg (by decide), if_pos (by decide)]
                  exact refused arranged false
              | true =>
                  rw [if_pos ⟨notNil, by simp [isDir], rfl, rfl⟩, if_neg (by decide),
                    if_neg (by decide)]
                  apply released arranged located isRoot
                  intro name
                  exact tree_of_none_iff.mp ((empty_iff arranged located isRoot).mpr occupied name)
        · rw [if_neg (by simp [isDir]), if_pos isDir]
          exact refused arranged false

theorem unlink_agrees (arranged : Arranged fs) (above : At (links fs) cwdLoc cwd)
    (path : Bytes) (uid gid : BitVec 16) :
    Agrees ((view fs).unlink path cwdLoc uid gid) (fs.unlink path cwd uid gid) := by
  have found := resolve_finds arranged above path
  unfold RamFs.unlink FileTree.unlink
  generalize fs.resolve path cwd = resolved at found ⊢
  generalize (view fs).find path cwdLoc = reached at found ⊢
  cases found with
  | none => exact refused arranged false
  | @some idx loc located =>
      dsimp only
      rw [is_dir_at arranged located, allows_at arranged (parent_at arranged located),
        owns_at arranged located]
      by_cases isRoot : idx = rootInode
      · rw [if_pos isRoot, if_neg (fun may => may.1 ((root_iff located).mpr isRoot))]
        exact refused arranged false
      · have notNil : loc ≠ [] := mt (root_iff located).mp isRoot
        rw [if_neg isRoot]
        by_cases isDir : (fs.inodes idx).kind = .dir
        · rw [if_pos isDir, if_neg (by simp [isDir])]
          exact refused arranged false
        · rw [if_neg isDir]
          by_cases allowed : uid = 0 ∨ (fs.inodes idx).uid = uid ∨
              fs.perm (fs.inodes idx).parent uid gid 2#16 = true
          · rw [if_pos ⟨notNil, by simp [isDir], by simpa using allowed⟩, if_neg]
            · exact released arranged located isRoot (file_childless arranged located isDir)
            · intro denied
              rcases allowed with isZero | owner | permitted
              · exact denied.1 isZero
              · exact denied.2.1 owner
              · simp [permitted] at denied
          · rw [if_neg (by simpa [notNil, isDir] using allowed), if_pos]
            · exact refused arranged false
            · simpa [not_or] using allowed

theorem chmod_agrees (arranged : Arranged fs) (above : At (links fs) cwdLoc cwd)
    (path : Bytes) (mode callerUid : BitVec 16) :
    Agrees ((view fs).chmod path cwdLoc mode callerUid) (fs.chmod path cwd mode callerUid) := by
  have found := resolve_finds arranged above path
  unfold RamFs.chmod FileTree.chmod
  generalize fs.resolve path cwd = resolved at found ⊢
  generalize (view fs).find path cwdLoc = reached at found ⊢
  cases found with
  | none => exact refused arranged false
  | @some idx loc located =>
      dsimp only
      rw [owns_at arranged located]
      by_cases allowed : callerUid = 0 ∨ (fs.inodes idx).uid = callerUid
      · rw [if_pos (by simpa using allowed), if_neg (by tauto)]
        exact modified arranged located (fun _ => ⟨rfl, rfl, rfl, rfl⟩) rfl
      · rw [if_neg (by simpa using allowed), if_pos (by tauto)]
        exact refused arranged false

theorem chown_agrees (arranged : Arranged fs) (above : At (links fs) cwdLoc cwd)
    (path : Bytes) (newUid newGid callerUid : BitVec 16) :
    Agrees ((view fs).chown path cwdLoc newUid newGid callerUid)
      (fs.chown path cwd newUid newGid callerUid) := by
  have found := resolve_finds arranged above path
  unfold RamFs.chown FileTree.chown
  generalize fs.resolve path cwd = resolved at found ⊢
  generalize (view fs).find path cwdLoc = reached at found ⊢
  by_cases isRoot : callerUid = 0
  · rw [if_neg (not_not.mpr isRoot)]
    cases found with
    | none => exact refused arranged false
    | some located =>
        dsimp only
        rw [if_pos isRoot]
        exact modified arranged located (fun _ => ⟨rfl, rfl, rfl, rfl⟩) rfl
  · rw [if_pos isRoot]
    cases found with
    | none => exact refused arranged false
    | some located =>
        dsimp only
        rw [if_neg isRoot]
        exact refused arranged false

theorem replaced (arranged : Arranged fs) {src dst : InodeIndex} {srcLoc : Location}
    (located : At (links fs) srcLoc src) (notRoot : src ≠ rootInode)
    (above : At (links fs) loc dir) (outside : ¬srcLoc <:+ loc) (fits : name.length ≤ maxName)
    (lookup : fs.lookupIn dir name = some dst) (different : dst ≠ src)
    (isFile : (fs.inodes dst).kind ≠ .dir) (dirKind : (fs.inodes dir).kind = .dir) :
    Agrees ((view fs).relocate srcLoc (name :: loc), true)
      ((fs.release dst).move src dir name, true) := by
  have dirUsed : (fs.inodes dir).used = true := at_used arranged.hierarchy above
  have dstNotRoot : dst ≠ rootInode := by
    rintro rfl
    exact isFile (is_directory_iff.mp arranged.shaped.root.1).2
  have place : At (links fs) (name :: loc) dst := by
    rcases lookup_in_cases lookup with ⟨_, rfl⟩ | ⟨_, rfl⟩ | ⟨_, _, isUsed, parent, _, named⟩
    · exact absurd dirKind isFile
    · exact absurd
        (is_directory_iff.mp (DirectoryParents.parent_used arranged.shaped dirUsed)).2 isFile
    · apply at_cons_iff.mpr
      refine ⟨isUsed, dstNotRoot, named, ?_⟩
      show At (links fs) loc (fs.inodes dst).parent
      rw [parent]
      exact above
  have childless := file_childless arranged place isFile
  obtain ⟨base, removed⟩ := released arranged place dstNotRoot childless
  have kept {here : Location} {i : InodeIndex} :
      At (links (fs.release dst)) here i ↔ At (links fs) here i ∧ i ≠ dst := by
    rw [links_release]
    exact at_detach_iff dstNotRoot place childless
  have may : MayMove (links (fs.release dst)) src dir srcLoc loc name := by
    refine ⟨notRoot, kept.mpr ⟨located, different.symm⟩, kept.mpr ⟨above, ?_⟩, outside, ?_⟩
    · rintro rfl
      exact isFile dirKind
    · intro i entry
      have before := kept.mp entry
      exact before.2 (same_index arranged.hierarchy before.1 place)
  obtain ⟨hierarchy, same⟩ := moved base may fits
  have apart : ¬srcLoc <:+ name :: loc := by
    rw [List.suffix_cons_iff]
    rintro (equal | inside)
    · rw [equal] at located
      exact different (same_index arranged.hierarchy place located)
    · exact outside inside
  have gone : (view fs).remove (name :: loc) = view (fs.release dst) := congrArg Prod.fst removed
  have after : view ((fs.release dst).move src dir name) =
      (view fs).relocate srcLoc (name :: loc) := by
    rw [← Tree.relocate_remove _ apart, gone]
    exact same
  refine ⟨hierarchy, ?_⟩
  show _ = (view ((fs.release dst).move src dir name), true)
  rw [after]

theorem rename_to_agrees (arranged : Arranged fs) {src : InodeIndex} {srcLoc : Location}
    (located : At (links fs) srcLoc src) (notRoot : src ≠ rootInode)
    (above : At (links fs) loc dir) (outside : ¬srcLoc <:+ loc) (fits : name.length ≤ maxName)
    (attaches : (∀ dst ∈ fs.lookupIn dir name, dst ≠ src ∧ (fs.inodes dst).kind ≠ .dir) →
      (fs.inodes dir).kind = .dir) :
    Agrees
      (if (view fs).findIn loc name = some srcLoc then (view fs, true)
      else if ((view fs).findIn loc name).any (view fs).isDir then (view fs, false)
      else ((view fs).relocate srcLoc (name :: loc), true))
      (fs.renameTo src dir name) := by
  have entry := lookup_finds arranged above name
  unfold RamFs.renameTo
  cases lookup : fs.lookupIn dir name with
  | none =>
      rw [lookup] at entry
      generalize (view fs).findIn loc name = reached at entry ⊢
      cases entry
      have may : MayMove (links fs) src dir srcLoc loc name :=
        ⟨notRoot, located, above, outside, name_free_at arranged above lookup⟩
      obtain ⟨hierarchy, same⟩ := moved arranged.hierarchy may fits
      refine ⟨hierarchy, ?_⟩
      rw [if_neg (by simp), if_neg (by simp), ← same]
  | some dst =>
      rw [lookup] at entry
      generalize (view fs).findIn loc name = reached at entry ⊢
      cases entry with
      | @some _ dstLoc dstAt =>
          dsimp only
          by_cases same : dst = src
          · subst same
            rw [if_pos rfl, if_pos (by rw [same_location dstAt located])]
            exact refused arranged true
          · have apart : some dstLoc ≠ some srcLoc := by
              intro equal
              rw [Option.some.inj equal] at dstAt
              exact same (same_index arranged.hierarchy dstAt located)
            rw [if_neg same, if_neg apart, Option.any_some, is_dir_at arranged dstAt]
            by_cases isDir : (fs.inodes dst).kind = .dir
            · rw [if_pos (by simp [isDir]), if_pos isDir]
              exact refused arranged false
            · rw [if_neg (by simp [isDir]), if_neg isDir]
              have dirKind : (fs.inodes dir).kind = .dir := by
                apply attaches
                intro other found
                rw [lookup] at found
                cases found
                exact ⟨same, isDir⟩
              exact replaced arranged located notRoot above outside fits lookup same isDir dirKind

theorem mem_moves_to {srcPath dstPath : Bytes} {src : InodeIndex} {uid gid : BitVec 16}
    (srcResolved : fs.resolve srcPath cwd = some src)
    (dirResolved : fs.resolveParent dstPath cwd = some dir) (notRoot : src ≠ rootInode)
    (leaves : fs.perm (fs.inodes src).parent uid gid 2#16 = true)
    (enters : fs.perm dir uid gid 2#16 = true)
    (entries : ∀ dst ∈ fs.lookupIn dir (lastName dstPath),
      dst ≠ src ∧ (fs.inodes dst).kind ≠ .dir) :
    dir ∈ movesTo fs srcPath dstPath cwd uid gid := by
  have checks : (fs.lookupIn dir (splitParent dstPath).2).all
      (fun dst => dst != src && (fs.inodes dst).kind != .dir) = true := by
    rw [Option.all_eq_true, split_parent_name]
    intro dst found
    simpa using entries dst found
  simp [movesTo, srcResolved, dirResolved, notRoot, leaves, enters, checks]

theorem rename_agrees (arranged : Arranged fs) (above : At (links fs) cwdLoc cwd)
    {srcPath dstPath : Bytes} {uid gid : BitVec 16} (named : lastName dstPath ≠ [])
    (fits : (lastName dstPath).length ≤ maxName)
    (outside : ∀ src ∈ fs.resolve srcPath cwd, ∀ dir ∈ fs.resolveParent dstPath cwd,
      ¬locationOf fs src <:+ locationOf fs dir)
    (attaches : ∀ parent ∈ movesTo fs srcPath dstPath cwd uid gid,
      (fs.inodes parent).kind = .dir) :
    Agrees ((view fs).rename srcPath dstPath cwdLoc uid gid)
      (fs.rename srcPath dstPath cwd uid gid) := by
  have source := resolve_finds arranged above srcPath
  have target := directory_finds arranged above named
  unfold RamFs.rename FileTree.rename
  rw [name_of_eq named, split_parent_name]
  cases srcResolved : fs.resolve srcPath cwd with
  | none =>
      rw [srcResolved] at source
      generalize (view fs).find srcPath cwdLoc = reached at source ⊢
      cases source
      exact refused arranged false
  | some src =>
      rw [srcResolved] at source
      generalize (view fs).find srcPath cwdLoc = reached at source ⊢
      cases source with
      | @some _ srcLoc located =>
          cases dirResolved : fs.resolveParent dstPath cwd with
          | none =>
              rw [dirResolved] at target
              generalize (view fs).findDirectory dstPath cwdLoc = dirReached at target ⊢
              cases target
              dsimp only
              rw [ite_self, ite_self]
              exact refused arranged false
          | some dir =>
              rw [dirResolved] at target
              generalize (view fs).findDirectory dstPath cwdLoc = dirReached at target ⊢
              cases target with
              | @some _ dirLoc dirAt =>
                  dsimp only
                  rw [allows_at arranged (parent_at arranged located), allows_at arranged dirAt]
                  by_cases isRoot : src = rootInode
                  · rw [if_pos isRoot, if_neg fun may => may.1 ((root_iff located).mpr isRoot)]
                    exact refused arranged false
                  · rw [if_neg isRoot]
                    have notNil : srcLoc ≠ [] := mt (root_iff located).mp isRoot
                    cases leaves : fs.perm (fs.inodes src).parent uid gid 2#16 with
                    | false =>
                        rw [if_neg (by simp), if_pos (by decide)]
                        exact refused arranged false
                    | true =>
                        have passes : ¬(!true) = true := by decide
                        rw [if_neg passes]
                        cases enters : fs.perm dir uid gid 2#16 with
                        | false =>
                            rw [if_neg (by simp), if_pos (by decide)]
                            exact refused arranged false
                        | true =>
                            rw [if_neg passes, if_pos ⟨notNil, rfl, rfl⟩]
                            have separate := outside src srcResolved dir dirResolved
                            rw [location_eq located, location_eq dirAt] at separate
                            apply rename_to_agrees arranged located isRoot dirAt separate fits
                            intro entries
                            exact attaches dir
                              (mem_moves_to srcResolved dirResolved isRoot leaves enters entries)

theorem patched_content (data : Nat → UInt8) {size offset : Nat} {written : Bytes}
    (inside : offset ≤ size) (room : offset < maxData) :
    (List.range (max size (min (offset + written.length) maxData))).map
        (fun i => if offset ≤ i ∧ i < min (offset + written.length) maxData then
          written.getD (i - offset) 0 else data i) =
      FileTree.patched ((List.range size).map data) offset written := by
  unfold FileTree.patched
  apply List.ext_getElem
  · simp only [List.length_map, List.length_range, List.length_append, List.length_take,
      List.length_drop]
    omega
  · intro i left right
    simp only [List.length_map, List.length_range] at left
    simp only [List.getElem_map, List.getElem_range, List.getElem_append, List.getElem_take,
      List.getElem_drop, List.length_append, List.length_take, List.length_map,
      List.length_range]
    split_ifs with covered before middle middle
    · omega
    · rw [List.getD_eq_getElem?_getD, List.getElem?_eq_getElem (by omega), Option.getD_some]
      congr 1
      omega
    · omega
    · rfl
    · omega
    · congr 1
      omega

theorem inode_write_agrees (arranged : Arranged fs) (idx : InodeIndex) {offset : Nat}
    {content : Bytes} (fitting : (fs.inodes idx).used = true →
      offset ≤ (fs.inodes idx).size ∧ offset + content.length < 2 ^ 64) :
    Agrees
      ((view fs).patch (if (fs.inodes idx).used then some (locationOf fs idx) else none) offset
        content) (fs.apply (.inodeWrite idx offset content)) := by
  unfold FileTree.patch
  simp only [RamFs.apply, RamFs.inodeWrite]
  by_cases isUsed : (fs.inodes idx).used = true
  · have located := location_at arranged isUsed
    obtain ⟨inside, ranged⟩ := fitting isUsed
    rw [if_pos isUsed, Nat.mod_eq_of_lt ranged]
    dsimp only
    rw [is_dir_at arranged located]
    by_cases isDir : (fs.inodes idx).kind = .dir
    · rw [if_neg (by simp [isDir]), if_pos (by simp [isDir])]
      exact refused arranged false
    · have passes : ¬(!(fs.inodes idx).used || decide ((fs.inodes idx).kind = .dir)) = true := by
        simp [isUsed, isDir]
      by_cases nothing : min (offset + content.length) maxData - offset = 0
      · rw [if_neg]
        · rw [if_neg passes, if_pos nothing]
          exact refused arranged false
        · intro may
          obtain ⟨-, given, room⟩ := may
          have positive := List.length_pos_iff.mpr given
          omega
      · have room : offset < maxData := by omega
        have given : content ≠ [] := by
          rintro rfl
          simp at nothing
        have answer : (min (offset + content.length) maxData - offset != 0) = true := by
          simpa using nothing
        rw [if_pos ⟨by simp [isDir], given, room⟩, if_neg passes, if_neg nothing]
        show Agrees _ (_, min (offset + content.length) maxData - offset != 0)
        rw [answer]
        apply @modified fs idx _ arranged located (fun inode =>
          { inode with
            data := fun i => if offset ≤ i ∧ i < min (offset + content.length) maxData then
              content.getD (i - offset) 0 else inode.data i
            size := max inode.size (min (offset + content.length) maxData) }) _
            fun _ => ⟨rfl, rfl, rfl, rfl⟩
        unfold nodeOf
        congr 1
        exact patched_content (fs.inodes idx).data inside room
  · have unused : (fs.inodes idx).used = false := by simpa using isUsed
    rw [if_neg isUsed, unused]
    exact refused arranged false

theorem in_directory_at (arranged : Arranged fs) (inside : isDirectory fs cwd = true) :
    At (links fs) (locationOf fs cwd) cwd :=
  location_at arranged (is_directory_iff.mp inside).1

theorem regular_step {operation : Operation} (arranged : Arranged fs)
    (regular : Regular fs operation) :
    Arranged (fs.apply operation).1 ∧
      (view fs).perform (requestOf fs operation) =
        (view (fs.apply operation).1, (fs.apply operation).2) := by
  obtain ⟨inside, attaches, form⟩ := regular
  have agrees : Agrees ((view fs).perform (requestOf fs operation)) (fs.apply operation) := by
    cases operation with
    | mkdir path cwd uid gid mode =>
        exact mkdir_agrees arranged (in_directory_at arranged inside) form.1 form.2 uid gid mode
    | rmdir path cwd uid gid =>
        exact rmdir_agrees arranged (in_directory_at arranged inside) path uid gid
    | touch path cwd uid gid =>
        exact touch_agrees arranged (in_directory_at arranged inside) form uid gid
    | write path cwd content uid gid =>
        exact write_agrees arranged (in_directory_at arranged inside) form content uid gid
    | unlink path cwd uid gid =>
        exact unlink_agrees arranged (in_directory_at arranged inside) path uid gid
    | rename srcPath dstPath cwd uid gid =>
        exact rename_agrees arranged (in_directory_at arranged inside) form.1 form.2.1 form.2.2
          attaches
    | chmod path cwd mode callerUid =>
        exact chmod_agrees arranged (in_directory_at arranged inside) path mode callerUid
    | chown path cwd newUid newGid callerUid =>
        exact chown_agrees arranged (in_directory_at arranged inside) path newUid newGid callerUid
    | inodeWrite idx offset content => exact inode_write_agrees arranged idx form
  exact ⟨⟨agrees.1, shaped_apply arranged.shaped inside attaches⟩, agrees.2⟩

theorem read_agrees (arranged : Arranged fs) (above : At (links fs) cwdLoc cwd) (path : Bytes)
    (uid gid : BitVec 16) :
    fs.readAt path cwd uid gid = (view fs).read path cwdLoc uid gid := by
  have found := resolve_finds arranged above path
  unfold RamFs.readAt FileTree.read
  generalize fs.resolve path cwd = resolved at found ⊢
  generalize (view fs).find path cwdLoc = reached at found ⊢
  cases found with
  | none => rfl
  | @some idx loc located =>
      rw [Option.bind_some, Option.bind_some, view_at arranged located, Option.bind_some,
        perm_grants]
      by_cases isDir : (fs.inodes idx).kind = .dir
      · have notFile : (nodeOf (fs.inodes idx)).kind ≠ .file := by simp [nodeOf, isDir]
        rw [if_pos isDir, if_neg fun may => notFile may.1]
      · have isFile : (nodeOf (fs.inodes idx)).kind = .file := by
          cases kind : (fs.inodes idx).kind with
          | dir => exact absurd kind isDir
          | file => exact kind
        rw [if_neg isDir]
        cases (nodeOf (fs.inodes idx)).grants uid gid 4#16 with
        | true =>
            rw [if_neg (by decide), if_pos ⟨isFile, rfl⟩]
            rfl
        | false => rw [if_pos (by decide), if_neg (by simp)]

end

def bareRoot : RamFs := RamFs.new.initRoot

theorem bare_used {i : InodeIndex} : (bareRoot.inodes i).used = true ↔ i = rootInode := by
  by_cases isRoot : i = rootInode
  · rw [bareRoot, RamFs.initRoot, RamFs.modify, isRoot, set_inode_same]
    simp
  · rw [bareRoot, RamFs.initRoot, RamFs.modify, set_inode_other _ _ isRoot]
    simp [RamFs.new, Inode.empty, isRoot]

theorem bare_at {loc : Location} {idx : InodeIndex} (located : At (links bareRoot) loc idx) :
    loc = [] ∧ idx = rootInode := by
  cases located with
  | root => exact ⟨rfl, rfl⟩
  | entry isUsed notRoot _ => exact absurd (bare_used.mp isUsed) notRoot

theorem bare_arranged : Arranged bareRoot := by
  constructor
  · constructor
    · exact bare_used.mpr rfl
    · intro i isUsed
      rw [bare_used.mp isUsed]
      exact ⟨[], .root⟩
    · intro first second isUsed _ notRoot
      exact absurd (bare_used.mp isUsed) notRoot
  · constructor
    · decide +kernel
    · intro i notRoot isUsed
      exact absurd (bare_used.mp isUsed) notRoot

theorem view_bare : view bareRoot = onlyRoot := by
  funext loc
  by_cases isRoot : loc = []
  · rw [isRoot, view_at bare_arranged .root]
    rfl
  · rw [onlyRoot, if_neg isRoot, view, tree_of_none_iff]
    intro i located
    exact isRoot (bare_at located).1

/-- The calls of `fs::init` up to its last one. -/
def directoryCalls : List Operation :=
  [.mkdir (ascii ['/', 'e', 't', 'c']) rootInode 0 0 0o755,
    .mkdir (ascii ['/', 'h', 'o', 'm', 'e']) rootInode 0 0 0o755,
    .mkdir (ascii ['/', 't', 'm', 'p']) rootInode 0 0 0o777,
    .write (ascii ['/', 'e', 't', 'c', '/', 'h', 'o', 's', 't', 'n', 'a', 'm', 'e']) rootInode
      (ascii ['f', 'e', 'r', 'r', 'u', 'g', 'e', 'm', '\n']) 0 0,
    .write (ascii ['/', 'e', 't', 'c', '/', 'm', 'o', 't', 'd']) rootInode
      (ascii ['W', 'e', 'l', 'c', 'o', 'm', 'e', ' ', 't', 'o', ' ', 'F', 'e', 'r', 'r', 'u', 'g',
        'e', 'm', '!', '\n']) 0 0,
    .mkdir (ascii ['/', 'h', 'o', 'm', 'e', '/', 'f', 'e', 'r', 'r', 'u', 'g', 'e', 'm']) rootInode
      1000 1000 0o755,
    .mkdir (ascii ['/', 'b', 'i', 'n']) rootInode 0 0 0o755]

def helloCall (hello : Bytes) : Operation := .write RamFs.helloPath rootInode hello 0 0

def initialRequests (hello : Bytes) : List Request :=
  (directoryCalls ++ [helloCall hello]).map (requestOf bareRoot)

noncomputable def initialTree (hello : Bytes) : FileTree :=
  treeSystem.runFrom treeSystem.init (initialRequests hello)

theorem request_of_eq {fs : RamFs} {operation : Operation}
    (fromRoot : workingDirectory operation = some rootInode) :
    requestOf fs operation = requestOf bareRoot operation := by
  have located (other : RamFs) : locationOf other rootInode = [] := location_eq .root
  cases operation with
  | inodeWrite => cases fromRoot
  | _ =>
      cases fromRoot
      simp only [requestOf, located]

theorem requests_from_root (hello : Bytes) {fs : RamFs} {operations : List Operation}
    (fromRoot : ∀ operation ∈ operations, workingDirectory operation = some rootInode) :
    (fsSystem hello).requestsFrom requestOf fs operations =
      operations.map (requestOf bareRoot) := by
  induction operations generalizing fs with
  | nil => rfl
  | cons operation rest ih =>
      obtain ⟨first, others⟩ := List.forall_mem_cons.mp fromRoot
      rw [EventSystem.requestsFrom, List.map_cons, request_of_eq first, ih others]

theorem step_refines (hello : Bytes) (fs : RamFs) (operation : Operation)
    (arranged : Arranged fs) (regular : Regular fs operation) :
    Arranged ((fsSystem hello).step fs operation).1 ∧
      treeSystem.step (view fs) (requestOf fs operation) =
        (view ((fsSystem hello).step fs operation).1, ((fsSystem hello).step fs operation).2) := by
  obtain ⟨kept, same⟩ := regular_step arranged regular
  refine ⟨kept, ?_⟩
  simp only [treeSystem, fsSystem, same]

theorem init_regular (hello : Bytes) : Regular RamFs.initDirectories (helloCall hello) := by
  refine ⟨?_, ?_, ?_⟩
  · simp only [helloCall, inDirectory, workingDirectory]
    decide +kernel
  · simp only [helloCall, attachesAt]
    decide +kernel
  · simp only [helloCall, KeepsForm]
    decide +kernel

theorem init_refines (hello : Bytes) :
    Arranged (RamFs.init hello) ∧ view (RamFs.init hello) = initialTree hello := by
  have meets : (fsSystem []).StepsMeet Regular bareRoot directoryCalls := by decide +kernel
  obtain ⟨arranged, same, -⟩ :=
    EventSystem.run_refines Arranged view requestOf (step_refines []) bare_arranged meets
  rw [requests_from_root [] (by decide), view_bare] at same
  obtain ⟨kept, last⟩ := step_refines hello _ _ arranged (init_regular hello)
  refine ⟨kept, ?_⟩
  rw [initialTree, initialRequests, List.map_append, EventSystem.run_from_append]
  show _ = (treeSystem.step (treeSystem.runFrom onlyRoot _) (requestOf bareRoot _)).1
  rw [same, ← @request_of_eq RamFs.initDirectories _ rfl]
  exact (congrArg Prod.fst last).symm

/-- A run from `fs::init` that keeps to the form is the run of the same requests
on the tree of names: it reaches the tree that the requests build, every call
answers as the tree does, and every file reads as the tree says. -/
theorem filesystem_refines_tree (hello : Bytes) {operations : List Operation}
    (regular : (fsSystem hello).StepsMeet Regular (fsSystem hello).init operations) :
    let requests := (fsSystem hello).requestsFrom requestOf (fsSystem hello).init operations
    let fs := (fsSystem hello).runFrom (fsSystem hello).init operations
    treeSystem.runFrom (initialTree hello) requests = view fs ∧
      treeSystem.traceFrom (initialTree hello) requests =
        (fsSystem hello).traceFrom (fsSystem hello).init operations ∧
      ∀ path cwd uid gid, isDirectory fs cwd = true →
        fs.readAt path cwd uid gid =
          (treeSystem.runFrom (initialTree hello) requests).read path (locationOf fs cwd) uid
            gid := by
  intro requests fs
  obtain ⟨initial, tree⟩ := init_refines hello
  obtain ⟨arranged, states, events⟩ :=
    EventSystem.run_refines Arranged view requestOf (step_refines hello) initial regular
  rw [tree] at states events
  refine ⟨states, events, ?_⟩
  intro path cwd uid gid inside
  rw [show treeSystem.runFrom (initialTree hello) requests = view fs from states]
  exact read_agrees arranged (in_directory_at arranged inside) path uid gid

/-- `mkdir` of a new directory, `rename` of a file into it, `rmdir` that is
refused and an `unlink`. -/
def movingCalls : List Operation :=
  [.mkdir (ascii ['t', 'm', 'p', '/', 'd']) rootInode 0 0 0o755,
    .rename (ascii ['/', 'e', 't', 'c', '/', 'm', 'o', 't', 'd'])
      (ascii ['/', 't', 'm', 'p', '/', 'd', '/', 'm']) rootInode 0 0,
    .rmdir (ascii ['/', 't', 'm', 'p', '/', 'd']) rootInode 0 0,
    .unlink (ascii ['/', 't', 'm', 'p', '/', 'd', '/', 'm']) rootInode 0 0]

theorem moving_calls_refine :
    treeSystem.traceFrom (initialTree [])
      ((fsSystem []).requestsFrom requestOf (fsSystem []).init movingCalls) =
        [true, true, false, true] :=
  (filesystem_refines_tree [] (by decide +kernel)).2.1.trans (by decide +kernel)

end Ferrugem.FileTreeRefinement
