import Ferrugem.PathResolution

/-!
# Resolution composes

A path that is continued after a slash resolves from where its first part leads,
and the split of a path at its last component agrees with resolving it.
-/

namespace Ferrugem.PathComposition

open Ferrugem.RamFsModel Ferrugem.PathResolution

set_option autoImplicit false

/-- The path resolves as its first part, followed by the rest from there. -/
def ResolvesInSteps (fs : RamFs) (first rest : Bytes) (cwd : InodeIndex) : Prop :=
  fs.resolve (first ++ [slash] ++ rest) cwd =
    (fs.resolve first cwd).bind fun idx => fs.resolve rest idx

/-- The path resolves as `split_parent` cuts it. -/
def AgreesWithSplit (fs : RamFs) (path : Bytes) (cwd : InodeIndex) : Prop :=
  fs.resolve path cwd =
    (fs.resolve (if (splitParent path).1 = [] then dot else (splitParent path).1) cwd).bind
      fun parent => fs.lookupIn parent (splitParent path).2

variable (fs : RamFs)

theorem walk_start_relative {path : Bytes} (relative : path.head? ≠ some slash)
    (cwd : InodeIndex) : RamFs.walkStart path cwd = cwd :=
  if_neg relative

theorem resolves_in_steps {first rest : Bytes} (notEmpty : first ≠ [])
    (relative : rest.head? ≠ some slash) (cwd : InodeIndex) :
    ResolvesInSteps fs first rest cwd := by
  have start : RamFs.walkStart (first ++ slash :: rest) cwd = RamFs.walkStart first cwd := by
    unfold RamFs.walkStart
    rw [List.head?_append_of_ne_nil first notEmpty]
  unfold ResolvesInSteps
  rw [List.append_assoc, List.singleton_append, resolve_eq_walk, start, split_append_slash,
    walk_append, resolve_eq_walk]
  congr 1
  funext idx
  rw [resolve_eq_walk, walk_start_relative relative]

theorem last_name_of_other {path : Bytes} (other : ∃ byte ∈ path, byte ≠ slash) :
    lastName path ≠ [] := by
  obtain ⟨byte, member, different⟩ := other
  intro noName
  have slashes : ∀ byte ∈ path, (byte == slash) = true :=
    List.rdropWhile_eq_nil_iff.mp (trimmed_of_no_name noName)
  exact different (eq_of_beq (slashes byte member))

/-- A step of `resolve` looks its component up, also where it is `.`. -/
theorem walk_one {parent : InodeIndex} {name : Bytes} (notEmpty : name ≠ []) :
    fs.walk parent [name] = fs.lookupIn parent name := by
  by_cases isDot : name = dot
  · subst isDot
    rfl
  · exact walk_single fs notEmpty isDot

theorem agrees_with_split {path : Bytes} (other : ∃ byte ∈ path, byte ≠ slash)
    (cwd : InodeIndex) : AgreesWithSplit fs path cwd := by
  have named := last_name_of_other other
  unfold AgreesWithSplit
  rw [resolve_split fs cwd named, split_parent_name]
  change ((fs.resolveParent path cwd).bind fun parent => fs.walk parent [lastName path]) =
    (fs.resolveParent path cwd).bind fun parent => fs.lookupIn parent (lastName path)
  congr 1
  funext parent
  exact walk_one fs named

/-- In every state: resolution composes, and it agrees with `split_parent`. -/
theorem resolution_composes :
    (∀ (first rest : Bytes) (cwd : InodeIndex), first ≠ [] → rest.head? ≠ some slash →
      ResolvesInSteps fs first rest cwd) ∧
    ∀ (path : Bytes) (cwd : InodeIndex), (∃ byte ∈ path, byte ≠ slash) →
      AgreesWithSplit fs path cwd :=
  ⟨fun _ _ cwd notEmpty relative => resolves_in_steps fs notEmpty relative cwd,
    fun _ cwd other => agrees_with_split fs other cwd⟩

/-- `//etc//` and `./hostname`, and the split of their composition. -/
theorem hostname_resolves_in_steps :
    let first := ascii ['/', '/', 'e', 't', 'c', '/', '/']
    let rest := ascii ['.', '/', 'h', 'o', 's', 't', 'n', 'a', 'm', 'e']
    (RamFs.initDirectories.resolve (first ++ [slash] ++ rest) rootInode).isSome = true ∧
      ResolvesInSteps RamFs.initDirectories first rest rootInode ∧
      AgreesWithSplit RamFs.initDirectories (first ++ [slash] ++ rest) rootInode := by
  obtain ⟨composes, agrees⟩ := resolution_composes RamFs.initDirectories
  exact ⟨by decide +kernel, composes _ _ rootInode (by decide) (by decide),
    agrees _ rootInode (by decide)⟩

end Ferrugem.PathComposition
