import Ferrugem.RamFsModel

/-!
# Path resolution

`resolve` walks over the parts of the whole path, and `split_parent` cuts the
path at its last component: resolving a path is resolving its directory part
and then one step with its last component.
-/

namespace Ferrugem.PathResolution

open Ferrugem.RamFsModel

set_option autoImplicit false

def trimmed (path : Bytes) : Bytes := path.rdropWhile (· == slash)

def front (path : Bytes) : Bytes := (trimmed path).rdropWhile (· != slash)

def lastName (path : Bytes) : Bytes := (trimmed path).rtakeWhile (· != slash)

section

variable (fs : RamFs)

theorem walk_append (cur : InodeIndex) (parts rest : List Bytes) :
    fs.walk cur (parts ++ rest) = (fs.walk cur parts).bind fun next => fs.walk next rest := by
  induction parts generalizing cur with
  | nil => rfl
  | cons part more ih =>
      simp only [List.cons_append, RamFs.walk]
      split_ifs
      · exact ih cur
      · rw [Option.bind_assoc]
        congr 1
        funext next
        exact ih next

theorem walk_single {cur : InodeIndex} {name : Bytes} (notEmpty : name ≠ []) (notDot : name ≠ dot) :
    fs.walk cur [name] = fs.lookupIn cur name := by
  simp only [RamFs.walk, notEmpty, notDot, or_self, if_false]
  cases fs.lookupIn cur name <;> rfl

theorem split_slash_cons (rest : Bytes) :
    (slash :: rest).splitOn slash = [] :: rest.splitOn slash := by
  have split := @List.splitOnP_append_cons _ (· == slash) [] rest slash (by simp)
  simpa [List.splitOn_eq_splitOnP] using split

theorem split_append_slash (path rest : Bytes) :
    (path ++ slash :: rest).splitOn slash = path.splitOn slash ++ rest.splitOn slash := by
  simp only [List.splitOn_eq_splitOnP]
  exact List.splitOnP_append_cons path rest (by simp)

theorem split_no_slash {name : Bytes} (noSlash : ∀ byte ∈ name, byte ≠ slash) :
    name.splitOn slash = [name] := by
  rw [List.splitOn_eq_splitOnP]
  apply List.splitOnP_eq_singleton
  intro byte member
  simpa using noSlash byte member

theorem walk_leading (start : InodeIndex) (path : Bytes) :
    fs.walk start ((path.dropWhile (· == slash)).splitOn slash) =
      fs.walk start (path.splitOn slash) := by
  induction path with
  | nil => rfl
  | cons byte rest ih =>
      by_cases isSlash : byte = slash
      · subst isSlash
        rw [split_slash_cons, List.dropWhile_cons_of_pos (by simp), ih]
        simp [RamFs.walk]
      · rw [List.dropWhile_cons_of_neg (by simpa using isSlash)]

theorem walk_trailing (start : InodeIndex) (path : Bytes) :
    fs.walk start ((trimmed path).splitOn slash) = fs.walk start (path.splitOn slash) := by
  unfold trimmed
  induction path using List.reverseRecOn with
  | nil => rfl
  | append_singleton rest byte ih =>
      by_cases isSlash : byte = slash
      · subst isSlash
        rw [List.rdropWhile_concat_pos _ _ _ (by simp), split_append_slash, walk_append, ih]
        simp [RamFs.walk]
      · rw [List.rdropWhile_concat_neg _ _ _ (by simpa using isSlash)]

theorem resolve_eq_walk (path : Bytes) (cwd : InodeIndex) :
    fs.resolve path cwd = fs.walk (RamFs.walkStart path cwd) (path.splitOn slash) := by
  rw [← walk_leading fs (RamFs.walkStart path cwd) path]
  unfold RamFs.resolve
  dsimp only
  split_ifs with blank
  · rw [blank]
    rfl
  · rfl

end

section

variable {path : Bytes}

theorem last_name_no_slash {byte : UInt8} (member : byte ∈ lastName path) : byte ≠ slash := by
  have kept := List.mem_rtakeWhile_imp member
  simpa using kept

theorem front_append_last_name (path : Bytes) : front path ++ lastName path = trimmed path :=
  List.rdropWhile_append_rtakeWhile

theorem split_parent_eq (path : Bytes) :
    splitParent path =
      if front path = [] then ([], trimmed path)
      else (if (front path).length = 1 then [slash] else (front path).dropLast, lastName path) :=
  rfl

/-- The name `split_parent` returns. -/
theorem split_parent_name (path : Bytes) : (splitParent path).2 = lastName path := by
  rw [split_parent_eq]
  by_cases whole : front path = []
  · rw [if_pos whole, ← front_append_last_name, whole, List.nil_append]
  · rw [if_neg whole]

theorem front_ends_in_slash (notEmpty : front path ≠ []) :
    front path = (front path).dropLast ++ [slash] := by
  have ends : (front path).getLast notEmpty = slash := by
    have last := List.rdropWhile_last_not (· != slash) (trimmed path) notEmpty
    simp only [bne_iff_ne, ne_eq, not_not] at last
    exact last
  have whole := List.dropLast_append_getLast notEmpty
  rw [ends] at whole
  exact whole.symm

theorem trimmed_of_no_name (noName : lastName path = []) : trimmed path = [] := by
  by_contra notEmpty
  have last := List.rtakeWhile_eq_nil_iff.mp noName notEmpty
  simp only [bne_iff_ne, ne_eq, not_not] at last
  apply List.rdropWhile_last_not (· == slash) path notEmpty
  rw [beq_iff_eq]
  exact last

theorem trimmed_head (notEmpty : trimmed path ≠ []) : (trimmed path).head? = path.head? := by
  obtain ⟨rest, whole⟩ := List.rdropWhile_prefix (· == slash) path
  change trimmed path ++ rest = path at whole
  have first := @List.head?_append_of_ne_nil _ (trimmed path) rest notEmpty
  rw [whole] at first
  exact first.symm

theorem parent_path_eq (path : Bytes) :
    RamFs.parentPath path =
      if front path = [] then dot
      else if (front path).length = 1 then [slash] else (front path).dropLast := by
  unfold RamFs.parentPath
  rw [split_parent_eq]
  by_cases whole : front path = []
  · simp only [if_pos whole, if_true]
  · simp only [if_neg whole]
    by_cases short : (front path).length = 1
    · simp only [if_pos short, List.cons_ne_nil, if_false]
    · simp only [if_neg short]
      rw [if_neg]
      intro empty
      have ends := front_ends_in_slash whole
      rw [empty, List.nil_append] at ends
      apply short
      rw [ends]
      rfl

end

section

variable (fs : RamFs)

theorem resolve_parent_eq_walk {path : Bytes} (cwd : InodeIndex) (notEmpty : front path ≠ []) :
    fs.resolveParent path cwd =
      fs.walk (RamFs.walkStart path cwd) ((front path).dropLast.splitOn slash) := by
  have ends := front_ends_in_slash notEmpty
  have trimmedNotEmpty : trimmed path ≠ [] := by
    rw [← front_append_last_name]
    simp [notEmpty]
  have head : path.head? = (front path).head? := by
    rw [← trimmed_head trimmedNotEmpty, ← front_append_last_name,
      List.head?_append_of_ne_nil _ notEmpty]
  unfold RamFs.resolveParent
  rw [resolve_eq_walk, parent_path_eq, if_neg notEmpty]
  by_cases short : (front path).length = 1
  · have bare : (front path).dropLast = [] := by
      apply List.eq_nil_of_length_eq_zero
      rw [List.length_dropLast, short]
    rw [bare, List.nil_append] at ends
    have start : RamFs.walkStart path cwd = rootInode := by
      unfold RamFs.walkStart
      rw [head, ends]
      rfl
    rw [if_pos short, bare, start]
    rfl
  · rw [if_neg short]
    have long : (front path).dropLast ≠ [] := by
      intro empty
      rw [empty, List.nil_append] at ends
      rw [ends] at short
      exact short rfl
    have first : (front path).head? = (front path).dropLast.head? := by
      have whole := @List.head?_append_of_ne_nil _ (front path).dropLast [slash] long
      rw [← ends] at whole
      exact whole
    have start : RamFs.walkStart (front path).dropLast cwd = RamFs.walkStart path cwd := by
      unfold RamFs.walkStart
      rw [head, first]
    rw [start]

/-- Resolving a path is resolving its directory part and then a step with its
last component. -/
theorem resolve_split {path : Bytes} (cwd : InodeIndex) (named : lastName path ≠ []) :
    fs.resolve path cwd =
      (fs.resolveParent path cwd).bind fun parent => fs.walk parent [lastName path] := by
  have single : (lastName path).splitOn slash = [lastName path] :=
    split_no_slash fun _ => last_name_no_slash
  have trimmedNotEmpty : trimmed path ≠ [] := by
    rw [← front_append_last_name]
    simp [named]
  rw [resolve_eq_walk, ← walk_trailing, ← front_append_last_name]
  by_cases whole : front path = []
  · have name : lastName path = trimmed path := by
      rw [← front_append_last_name, whole, List.nil_append]
    have start : RamFs.walkStart path cwd = cwd := by
      unfold RamFs.walkStart
      rw [← trimmed_head trimmedNotEmpty, ← name, if_neg]
      intro isSlash
      exact last_name_no_slash (List.mem_of_head? isSlash) rfl
    have here : fs.resolveParent path cwd = some cwd := by
      unfold RamFs.resolveParent
      rw [parent_path_eq, if_pos whole]
      rfl
    rw [here, whole, start, List.nil_append, single]
    rfl
  · rw [resolve_parent_eq_walk fs cwd whole]
    nth_rewrite 1 [front_ends_in_slash whole]
    rw [List.append_assoc, List.singleton_append, split_append_slash, walk_append, single]

end

def trail (fs : RamFs) : InodeIndex → List Bytes → List InodeIndex
  | cur, [] => [cur]
  | cur, part :: rest =>
      if part = [] ∨ part = dot then trail fs cur rest
      else cur :: ((fs.lookupIn cur part).map fun next => trail fs next rest).getD []

/-- The inodes that `resolve` comes to. -/
def resolveTrail (fs : RamFs) (path : Bytes) (cwd : InodeIndex) : List InodeIndex :=
  trail fs (RamFs.walkStart path cwd) (path.splitOn slash)

section

variable {before after : RamFs}

theorem walk_end_mem_trail {start reached : InodeIndex} {parts : List Bytes}
    (walks : before.walk start parts = some reached) : reached ∈ trail before start parts := by
  induction parts generalizing start with
  | nil =>
      cases walks
      exact List.mem_singleton_self _
  | cons part rest ih =>
      simp only [RamFs.walk, trail] at walks ⊢
      split_ifs at walks ⊢
      · exact ih walks
      · obtain ⟨next, lookup, later⟩ := Option.bind_eq_some_iff.mp walks
        rw [lookup]
        exact List.mem_cons_of_mem start (ih later)

theorem walk_kept {start reached : InodeIndex} {parts : List Bytes}
    (lookups : ∀ cur ∈ trail before start parts, ∀ part next,
      before.lookupIn cur part = some next → after.lookupIn cur part = some next)
    (walks : before.walk start parts = some reached) : after.walk start parts = some reached := by
  induction parts generalizing start with
  | nil => exact walks
  | cons part rest ih =>
      simp only [RamFs.walk, trail] at walks lookups ⊢
      split_ifs at walks lookups ⊢
      · exact ih lookups walks
      · obtain ⟨next, lookup, later⟩ := Option.bind_eq_some_iff.mp walks
        rw [lookups start List.mem_cons_self part next lookup]
        apply ih _ later
        intro cur member
        apply lookups
        rw [lookup]
        exact List.mem_cons_of_mem start member

theorem resolve_kept {path : Bytes} {cwd reached : InodeIndex}
    (lookups : ∀ cur ∈ resolveTrail before path cwd, ∀ part next,
      before.lookupIn cur part = some next → after.lookupIn cur part = some next)
    (resolves : before.resolve path cwd = some reached) :
    after.resolve path cwd = some reached := by
  rw [resolve_eq_walk] at resolves ⊢
  exact walk_kept lookups resolves

theorem lookup_same_places (same : SamePlaces before after) (parent : InodeIndex) (name : Bytes) :
    after.lookupIn parent name = before.lookupIn parent name := by
  unfold RamFs.lookupIn
  simp only [same.used, same.parent, same.name]

end

end Ferrugem.PathResolution
