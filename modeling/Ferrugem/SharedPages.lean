import Ferrugem.SegmentOverlays
import Ferrugem.SegmentPages

/-!
# Segments that share pages

`load` maps whole fresh pages for every segment, also where a page holds bytes of
an earlier segment, and does not compare the segments. An earlier segment keeps
its bytes exactly when every later page over it has the same contents there.
-/

namespace Ferrugem.SharedPages

open Ferrugem.PagingModel Ferrugem.ElfLoaderModel Ferrugem.SegmentLoading Ferrugem.SegmentPages
open Ferrugem.SegmentOverlays Ferrugem.PageMapping Ferrugem.BitmapPages
open Ferrugem.HeapRegions Fallible

set_option autoImplicit false

variable {image : KernelImage} {Store : Type} {allocator : PageAllocator image Store}

def biasOf (data : Bytes) (header : ElfHeader) : Nat :=
  loadBias header (minLoadVa (programHeaders data header))

/-- The state after the program headers below the number have been processed. -/
def stateAfter (allocator : PageAllocator image Store) (data : Bytes) (pt : Nat)
    (header : ElfHeader) (space : PhysicalSpace Store) (count : Nat) : PhysicalSpace Store :=
  (loadSegments allocator data pt (biasOf data header)
    ((programHeaders data header).take count) 0 space).2

/-- What the program reads at the address at that point. -/
def byteAfter (allocator : PageAllocator image Store) (data : Bytes) (pt : Nat)
    (header : ElfHeader) (space : PhysicalSpace Store) (count va : Nat) : Option (BitVec 8) :=
  userByte (stateAfter allocator data pt header space count).memory pt va

def segmentVa (data : Bytes) (header : ElfHeader) (i : Nat) : Nat :=
  biased (biasOf data header) (programHeader data header i).vaddr

/-- The two program headers are loaded one after the other. -/
structure LoadedBefore (data : Bytes) (header : ElfHeader) (i j : Nat) : Prop where
  order : i < j
  below : j < header.phnum
  first : IsLoaded (programHeader data header i)
  second : IsLoaded (programHeader data header j)

section

variable {data : Bytes} {bias pt : Nat} {ph : ProgramHeader} {space : PhysicalSpace Store}

structure RoundDone (allocator : PageAllocator image Store) (data : Bytes) (pt bias : Nat)
    (ph : ProgramHeader) (before after : PhysicalSpace Store) : Prop where
  formed : Formed allocator pt after
  skipped : ¬IsLoaded ph → after = before
  loaded : IsLoaded ph → ∃ segment, segmentOf data bias ph = some segment ∧
    Overlays data pt segment before.memory after.memory

theorem load_segment_ends (short : data.length < 2 ^ 63) (formed : Formed allocator pt space)
    (maxVa : Nat) :
    Ends (loadSegment allocator data pt bias ph maxVa) space
      (fun _ later => RoundDone allocator data pt bias ph space later) (fun _ => True) := by
  unfold loadSegment
  split_ifs with skipped
  · apply ends_pure
    refine ⟨formed, fun _ => rfl, ?_⟩
    rintro ⟨isLoad, notEmpty⟩
    rcases skipped with other | empty
    · exact absurd isLoad other
    · exact absurd empty notEmpty
  · rw [not_or, not_not] at skipped
    cases made : segmentOf data bias ph with
    | none => exact ends_fail trivial
    | some segment =>
        have checked := segment_of_checked made
        apply ends_bind (pages_loaded_ends checked short formed)
        intro _ later loaded
        apply ends_pure
        exact ⟨loaded.formed, fun not => absurd skipped not,
          fun _ => ⟨segment, made, loaded.overlays checked⟩⟩

end

theorem load_segments_append (data : Bytes) (pt bias : Nat) (first second : List ProgramHeader)
    (maxVa : Nat) :
    loadSegments allocator data pt bias (first ++ second) maxVa =
      loadSegments allocator data pt bias first maxVa >>=
        loadSegments allocator data pt bias second := by
  induction first generalizing maxVa with
  | nil => rfl
  | cons ph rest ih =>
      rw [List.cons_append, load_segments_cons, load_segments_cons]
      funext space
      simp only [bind]
      cases loadSegment allocator data pt bias ph maxVa space with
      | mk result reached =>
          cases result with
          | none => rfl
          | some middle =>
              dsimp only
              rw [ih]
              rfl

theorem returns_of_bind {State Value Result : Type} {prog : Fallible State Value}
    {next : Value → Fallible State Result} {state : State} {result : Result}
    (returns : ((prog >>= next) state).1 = some result) : ∃ value, (prog state).1 = some value ∧
      (prog >>= next) state = next value (prog state).2 := by
  cases outcome : prog state with
  | mk returned later =>
      cases returned with
      | none =>
          rw [bind_none outcome] at returns
          cases returns
      | some value => exact ⟨value, rfl, bind_some outcome next⟩

section

variable {data : Bytes} {pt : Nat} {header : ElfHeader} {space : PhysicalSpace Store}

/-- The segment loop of `load` does not fail. -/
def LoopSucceeds (allocator : PageAllocator image Store) (data : Bytes) (pt : Nat)
    (header : ElfHeader) (space : PhysicalSpace Store) : Prop :=
  (loadSegments allocator data pt (biasOf data header) (programHeaders data header) 0 space).1.isSome

theorem loop_succeeds {loaded : LoadedImage} (read : readHeader data = some header)
    (loads : (load allocator data pt space).1 = some loaded) :
    LoopSucceeds allocator data pt header space := by
  unfold load at loads
  rw [read] at loads
  dsimp only at loads
  split_ifs at loads
  · cases loads
  · obtain ⟨maxVa, returns, _⟩ := returns_of_bind loads
    unfold LoopSucceeds biasOf
    rw [returns]
    rfl

theorem program_headers_length (data : Bytes) (header : ElfHeader) :
    (programHeaders data header).length = header.phnum := by
  unfold programHeaders
  rw [List.length_map, List.length_range]

theorem program_headers_take_succ {count : Nat} (below : count < header.phnum) :
    (programHeaders data header).take (count + 1) =
      (programHeaders data header).take count ++ [programHeader data header count] := by
  have inside : count < (programHeaders data header).length := by
    rw [program_headers_length]
    exact below
  have here : (programHeaders data header)[count] = programHeader data header count := by
    simp [programHeaders, programHeader, headerOffset]
  rw [List.take_succ_eq_append_getElem inside, here]

theorem prefix_succeeds (succeeds : LoopSucceeds allocator data pt header space) (count : Nat) :
    ∃ maxVa, (loadSegments allocator data pt (biasOf data header)
      ((programHeaders data header).take count) 0 space).1 = some maxVa := by
  obtain ⟨last, returns⟩ := Option.isSome_iff_exists.mp succeeds
  rw [← List.take_append_drop count (programHeaders data header), load_segments_append] at returns
  obtain ⟨maxVa, before, _⟩ := returns_of_bind returns
  exact ⟨maxVa, before⟩

theorem outcome_eq {Result State : Type} {outcome : Result × State} {result : Result}
    {state : State} (returned : outcome.1 = result) (after : outcome.2 = state) :
    outcome = (result, state) := by
  rw [← returned, ← after]

theorem state_after_succ (succeeds : LoopSucceeds allocator data pt header space) {count : Nat}
    (below : count < header.phnum) :
    ∃ maxVa high, loadSegment allocator data pt (biasOf data header)
      (programHeader data header count) maxVa (stateAfter allocator data pt header space count) =
        (some high, stateAfter allocator data pt header space (count + 1)) := by
  obtain ⟨last, returns⟩ := prefix_succeeds succeeds (count + 1)
  rw [program_headers_take_succ below, load_segments_append] at returns
  obtain ⟨maxVa, _, whole⟩ := returns_of_bind returns
  rw [whole, load_segments_cons] at returns
  obtain ⟨high, round, ended⟩ := returns_of_bind returns
  have loaded : ∀ state, (loadSegments allocator data pt (biasOf data header) [] high state).2 =
      state := fun _ => rfl
  refine ⟨maxVa, high, outcome_eq round ?_⟩
  unfold stateAfter
  rw [program_headers_take_succ below, load_segments_append, whole, load_segments_cons, ended,
    loaded]

theorem rounds_done (succeeds : LoopSucceeds allocator data pt header space)
    (short : data.length < 2 ^ 63) (formed : Formed allocator pt space) {count : Nat}
    (below : count < header.phnum) :
    RoundDone allocator data pt (biasOf data header) (programHeader data header count)
      (stateAfter allocator data pt header space count)
      (stateAfter allocator data pt header space (count + 1)) := by
  have kept : ∀ reached, reached ≤ header.phnum →
      Formed allocator pt (stateAfter allocator data pt header space reached) := by
    intro reached
    induction reached with
    | zero => exact fun _ => formed
    | succ reached ih =>
        intro inside
        obtain ⟨maxVa, high, round⟩ := state_after_succ succeeds (Nat.lt_of_succ_le inside)
        exact ((load_segment_ends short (ih (by omega)) maxVa).1 high _ round).formed
  obtain ⟨maxVa, high, round⟩ := state_after_succ succeeds below
  exact (load_segment_ends short (kept count below.le) maxVa).1 high _ round

end

section

variable {data : Bytes} {pt bias : Nat} {ph : ProgramHeader} {before after : PhysicalSpace Store}
variable {segment : Segment} {va address : Nat}

theorem RoundDone.hit (done : RoundDone allocator data pt bias ph before after)
    (isLoaded : IsLoaded ph) (made : segmentOf data bias ph = some segment)
    (covers : Covers segment address) (canonical : IsCanonical va)
    (same : address % 2 ^ 48 = va % 2 ^ 48) :
    userByte after.memory pt va = some (contentAt segment data address) := by
  obtain ⟨other, alsoMade, overlays⟩ := done.loaded isLoaded
  obtain rfl : other = segment := Option.some.inj (alsoMade.symm.trans made)
  have user := overlays.user address covers
  unfold userByte
  rw [if_pos ⟨canonical, by omega⟩, ← same]
  exact overlays.new address covers

theorem RoundDone.miss (done : RoundDone allocator data pt bias ph before after)
    (apart : IsLoaded ph → ∀ segment, segmentOf data bias ph = some segment →
      ∀ address, Covers segment address → address % 2 ^ 48 ≠ va % 2 ^ 48) :
    userByte after.memory pt va = userByte before.memory pt va := by
  by_cases isLoaded : IsLoaded ph
  · obtain ⟨segment, made, overlays⟩ := done.loaded isLoaded
    unfold userByte
    split_ifs with readable
    · apply overlays.old _ (Nat.mod_lt _ (by decide))
      · omega
      · exact apart isLoaded segment made
    · rfl
  · rw [done.skipped isLoaded]

theorem covers_own (checked : SegmentChecked data bias ph segment) {k : Nat}
    (below : k < ph.memsz) : Covers segment (biased bias ph.vaddr + k) := by
  have last := checked.pageEnd
  have first := checked.segVa
  unfold Covers
  unfold pageStart at *
  unfold pageSize at *
  omega

end

/-- Loading the later segments leaves the bytes of the earlier ones, and no two
segments have a byte in common. -/
structure SegmentsKept (allocator : PageAllocator image Store) (data : Bytes) (pt : Nat)
    (header : ElfHeader) (space : PhysicalSpace Store) : Prop where
  kept : ∀ i j, LoadedBefore data header i j → ∀ k, k < (programHeader data header i).memsz →
    byteAfter allocator data pt header space (j + 1) (segmentVa data header i + k) =
      byteAfter allocator data pt header space j (segmentVa data header i + k)
  disjoint : ∀ i j, LoadedBefore data header i j → ∀ k, k < (programHeader data header i).memsz →
    ∀ l, l < (programHeader data header j).memsz →
    segmentVa data header i + k ≠ segmentVa data header j + l

/-- Where a page of a later segment lies over a byte of an earlier one, it holds
the same byte of the file or the same zero, and no two segments overlap. -/
structure SegmentsAgree (data : Bytes) (header : ElfHeader) : Prop where
  pages : ∀ i j, LoadedBefore data header i j → ∀ first second,
    segmentOf data (biasOf data header) (programHeader data header i) = some first →
    segmentOf data (biasOf data header) (programHeader data header j) = some second →
    ∀ k, k < (programHeader data header i).memsz → IsCanonical (segmentVa data header i + k) →
    ∀ address, Covers second address →
    address % 2 ^ 48 = (segmentVa data header i + k) % 2 ^ 48 →
    contentAt second data address = contentAt first data (segmentVa data header i + k)
  disjoint : ∀ i j, LoadedBefore data header i j →
    segmentVa data header i + (programHeader data header i).memsz ≤ segmentVa data header j ∨
      segmentVa data header j + (programHeader data header j).memsz ≤ segmentVa data header i

section

variable {data : Bytes} {pt : Nat} {header : ElfHeader} {space : PhysicalSpace Store}

theorem loaded_made (succeeds : LoopSucceeds allocator data pt header space)
    (short : data.length < 2 ^ 63) (formed : Formed allocator pt space) {i : Nat}
    (below : i < header.phnum) (isLoaded : IsLoaded (programHeader data header i)) :
    ∃ segment, segmentOf data (biasOf data header) (programHeader data header i) = some segment ∧
      ∀ k, k < (programHeader data header i).memsz →
        Covers segment (segmentVa data header i + k) := by
  obtain ⟨segment, made, _⟩ := (rounds_done succeeds short formed below).loaded isLoaded
  exact ⟨segment, made, fun _ => covers_own (segment_of_checked made)⟩

/-- After its round, the byte of an earlier segment holds as long as the rounds
in between keep it. -/
theorem byte_stays (succeeds : LoopSucceeds allocator data pt header space)
    (short : data.length < 2 ^ 63) (formed : Formed allocator pt space) {i : Nat}
    (isLoaded : IsLoaded (programHeader data header i)) {first : Segment}
    (made : segmentOf data (biasOf data header) (programHeader data header i) = some first)
    {k : Nat} (inside : k < (programHeader data header i).memsz)
    (canonical : IsCanonical (segmentVa data header i + k)) {last : Nat} (later : i < last)
    (bounded : last ≤ header.phnum)
    (kept : ∀ j, LoadedBefore data header i j → j < last →
      byteAfter allocator data pt header space j (segmentVa data header i + k) =
        some (contentAt first data (segmentVa data header i + k)) →
      byteAfter allocator data pt header space (j + 1) (segmentVa data header i + k) =
        some (contentAt first data (segmentVa data header i + k))) :
    byteAfter allocator data pt header space last (segmentVa data header i + k) =
      some (contentAt first data (segmentVa data header i + k)) := by
  induction last with
  | zero => omega
  | succ last ih =>
      have done := rounds_done succeeds short formed (Nat.lt_of_succ_le bounded)
      rcases Nat.lt_succ_iff_lt_or_eq.mp later with earlier | rfl
      · have before := ih earlier (by omega) fun j order inside => kept j order (by omega)
        by_cases alsoLoaded : IsLoaded (programHeader data header last)
        · exact kept last ⟨earlier, by omega, isLoaded, alsoLoaded⟩ (by omega) before
        · unfold byteAfter at before ⊢
          rw [done.skipped alsoLoaded]
          exact before
      · exact done.hit isLoaded made (covers_own (segment_of_checked made) inside) canonical rfl

/-- For every accepted file. -/
theorem load_keeps_segments_iff {loaded : LoadedImage} (short : data.length < 2 ^ 63)
    (formed : Formed allocator pt space) (read : readHeader data = some header)
    (loads : (load allocator data pt space).1 = some loaded) :
    SegmentsKept allocator data pt header space ↔ SegmentsAgree data header := by
  have succeeds := loop_succeeds read loads
  constructor
  · intro keeps
    refine ⟨?_, ?_⟩
    · intro i j order first second firstMade secondMade k inside canonical address covers same
      have stays := byte_stays succeeds short formed order.first firstMade inside canonical
        (Nat.lt_succ_of_lt order.order) order.below
        fun middle between _ before => (keeps.kept i middle between k inside).trans before
      have done := rounds_done succeeds short formed order.below
      exact Option.some.inj ((done.hit order.second secondMade covers canonical same).symm.trans
        stays)
    · intro i j order
      by_contra overlap
      rw [not_or, not_le, not_le] at overlap
      have someFirst := order.first.2
      have someSecond := order.second.2
      apply keeps.disjoint i j order (segmentVa data header j - segmentVa data header i) _
        (segmentVa data header i - segmentVa data header j)
      · omega
      · omega
      · omega
  · intro agrees
    refine ⟨?_, ?_⟩
    · intro i j order k inside
      by_cases canonical : IsCanonical (segmentVa data header i + k)
      · obtain ⟨first, firstMade, _⟩ := loaded_made succeeds short formed
          (order.order.trans order.below) order.first
        have held : ∀ middle, LoadedBefore data header i middle →
            byteAfter allocator data pt header space middle (segmentVa data header i + k) =
              some (contentAt first data (segmentVa data header i + k)) →
            byteAfter allocator data pt header space (middle + 1) (segmentVa data header i + k) =
              some (contentAt first data (segmentVa data header i + k)) := by
          intro middle between before
          have done := rounds_done succeeds short formed between.below
          obtain ⟨second, secondMade, _⟩ := loaded_made succeeds short formed between.below
            between.second
          by_cases later : ∃ address, Covers second address ∧
              address % 2 ^ 48 = (segmentVa data header i + k) % 2 ^ 48
          · obtain ⟨address, covers, same⟩ := later
            rw [← agrees.pages i middle between first second firstMade secondMade k inside canonical
              address covers same]
            exact done.hit between.second secondMade covers canonical same
          · refine (done.miss ?_).trans before
            intro _ other made address covers same
            obtain rfl : other = second := Option.some.inj (made.symm.trans secondMade)
            exact later ⟨address, covers, same⟩
        have stays : ∀ last, i < last → last ≤ header.phnum →
            byteAfter allocator data pt header space last (segmentVa data header i + k) =
              some (contentAt first data (segmentVa data header i + k)) :=
          fun last later bounded => byte_stays succeeds short formed order.first firstMade
            inside canonical later bounded fun middle between _ => held middle between
        rw [stays j order.order order.below.le, stays (j + 1) (by have := order.order; omega)
          order.below]
      · have unreadable : ∀ count, byteAfter allocator data pt header space count
            (segmentVa data header i + k) = none :=
          fun _ => if_neg fun readable => canonical readable.1
        rw [unreadable, unreadable]
    · intro i j order k inside l alsoInside
      rcases agrees.disjoint i j order with before | after
      · omega
      · omega

end

/-- A position-independent executable whose headers and whose instructions are
two segments; the byte says how many pages lie between them, times 16. -/
def pairElf (page : BitVec 8) : Bytes :=
  [0x7F, 0x45, 0x4C, 0x46, 2, 1, 1, 0, 0, 0, 0, 0, 0, 0, 0, 0,
    3, 0, 0x3E, 0, 1, 0, 0, 0, 0xB0, page, 0, 0, 0, 0, 0, 0,
    64, 0, 0, 0, 0, 0, 0, 0, 0, 0, 0, 0, 0, 0, 0, 0,
    0, 0, 0, 0, 64, 0, 56, 0, 2, 0, 0, 0, 0, 0, 0, 0,
    1, 0, 0, 0, 4, 0, 0, 0, 0, 0, 0, 0, 0, 0, 0, 0,
    0, 0, 0, 0, 0, 0, 0, 0, 0, 0, 0, 0, 0, 0, 0, 0,
    0xB0, 0, 0, 0, 0, 0, 0, 0, 0xB0, 0, 0, 0, 0, 0, 0, 0,
    0, 0x10, 0, 0, 0, 0, 0, 0,
    1, 0, 0, 0, 5, 0, 0, 0, 0xB0, 0, 0, 0, 0, 0, 0, 0,
    0xB0, page, 0, 0, 0, 0, 0, 0, 0xB0, page, 0, 0, 0, 0, 0, 0,
    2, 0, 0, 0, 0, 0, 0, 0, 2, 0, 0, 0, 0, 0, 0, 0,
    0, 0x10, 0, 0, 0, 0, 0, 0,
    0xEB, 0xFE]

def pairHeader (page : Nat) : ElfHeader where
  etype := 3
  entry := 0xB0 + page * 256
  phoff := 64
  phentsize := 56
  phnum := 2

/-- In one page: the headers are gone when the instructions have been loaded. -/
theorem sharing_segment_lost :
    readHeader (pairElf 0) = some (pairHeader 0) ∧
      (load (PageSupply.pageAllocator smallImage) (pairElf 0) 0x106000 emptyX86).1.isSome = true ∧
      (∀ k, k < 0xB0 → ∀ l, l < 2 →
        segmentVa (pairElf 0) (pairHeader 0) 0 + k ≠ segmentVa (pairElf 0) (pairHeader 0) 1 + l) ∧
      ¬SegmentsKept (PageSupply.pageAllocator smallImage) (pairElf 0) 0x106000 (pairHeader 0)
        emptyX86 := by
  refine ⟨by decide +kernel, by decide +kernel, by decide +kernel, ?_⟩
  intro keeps
  have order : LoadedBefore (pairElf 0) (pairHeader 0) 0 1 :=
    ⟨by decide, by decide, ⟨by decide +kernel, by decide +kernel⟩,
      ⟨by decide +kernel, by decide +kernel⟩⟩
  have same := keeps.kept 0 1 order 0 (by decide +kernel)
  revert same
  decide +kernel

theorem pair_second_page {second : Segment} {address : Nat}
    (made : segmentOf (pairElf 0x10) (biasOf (pairElf 0x10) (pairHeader 0x10))
      (programHeader (pairElf 0x10) (pairHeader 0x10) 1) = some second)
    (covers : Covers second address) :
    userBaseVa + 0x1000 ≤ address ∧ address < userBaseVa + 0x2000 := by
  have next : segmentVa (pairElf 0x10) (pairHeader 0x10) 1 = userBaseVa + 0x10B0 := by
    decide +kernel
  have size : (programHeader (pairElf 0x10) (pairHeader 0x10) 1).memsz = 2 := by
    decide +kernel
  have checked := segment_of_checked made
  have position : second.segVa = segmentVa (pairElf 0x10) (pairHeader 0x10) 1 := checked.segVa
  obtain ⟨after, before⟩ := covers
  rw [checked.pageEnd, position, next, size] at before
  rw [position, next] at after
  unfold pageStart pageSize userBaseVa at *
  omega

theorem pair_apart_agrees : SegmentsAgree (pairElf 0x10) (pairHeader 0x10) := by
  have start : segmentVa (pairElf 0x10) (pairHeader 0x10) 0 = userBaseVa := by decide +kernel
  have next : segmentVa (pairElf 0x10) (pairHeader 0x10) 1 = userBaseVa + 0x10B0 := by
    decide +kernel
  have size : (programHeader (pairElf 0x10) (pairHeader 0x10) 0).memsz = 0xB0 := by
    decide +kernel
  have both : ∀ {i j}, LoadedBefore (pairElf 0x10) (pairHeader 0x10) i j → i = 0 ∧ j = 1 := by
    intro i j order
    have below : j < 2 := order.below
    have before := order.order
    omega
  refine ⟨?_, ?_⟩
  · intro i j order first second _ made k inside _ address covers same
    obtain ⟨rfl, rfl⟩ := both order
    obtain ⟨after, before⟩ := pair_second_page made covers
    rw [start] at same
    rw [size] at inside
    unfold userBaseVa at *
    omega
  · intro i j order
    obtain ⟨rfl, rfl⟩ := both order
    left
    rw [start, next, size]
    omega

/-- A page apart, both stay. -/
theorem separate_segments_kept :
    SegmentsKept (PageSupply.pageAllocator smallImage) (pairElf 0x10) 0x106000 (pairHeader 0x10)
      emptyX86 := by
  have accepted : (load (PageSupply.pageAllocator smallImage) (pairElf 0x10) 0x106000
      emptyX86).1.isSome = true := by decide +kernel
  obtain ⟨loaded, loads⟩ := Option.isSome_iff_exists.mp accepted
  have read : readHeader (pairElf 0x10) = some (pairHeader 0x10) := by decide +kernel
  exact (load_keeps_segments_iff (by decide +kernel) empty_x86_formed read loads).mpr
    pair_apart_agrees

end Ferrugem.SharedPages
