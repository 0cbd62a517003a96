import Mathlib.Algebra.Group.Nat.Defs
import Ferrugem.Library.WordMemory

/-!
# Radix page tables

A table is a page of 512 entries. Level 0 is the last one: its entries map
single pages. An entry of a higher level is absent, leads to a table of the
level below, or maps a large page. `walk` looks a page number up, and `Visits`
says which tables it passes. In a well-formed tree a table is met at one place
only, so a write to an entry changes no walk that does not read that entry.
-/

set_option autoImplicit false

namespace RadixTables

inductive Decoded where
  | absent
  | table (address : Nat)
  | leaf (address : Nat) (flags : BitVec 64)
  deriving DecidableEq

/-- How entries are read at each level, and the entry that is stored for a new
table. `tableFlags` are the bits by which an entry that leads to a table bounds
the accesses below it. -/
structure TableFormat where
  decode : Nat → BitVec 64 → Decoded
  tableFlags : BitVec 64 → BitVec 64
  link : Nat → BitVec 64
  absent : ∀ level, decode level 0#64 = .absent
  last : ∀ entry address, decode 0 entry ≠ .table address
  aligned : ∀ {level entry address}, decode level entry = .table address → address % 4096 = 0
  linked : ∀ level {address}, address % 4096 = 0 → address < 2 ^ 52 →
    decode (level + 1) (link address) = .table address

/-- The frame of a page and the flags of the entry that maps it. -/
structure Translation where
  frame : Nat
  flags : BitVec 64
  deriving DecidableEq

def index (page level : Nat) : Nat := page / 512 ^ level % 512

def entryAt (memory : WordMemory) (table position : Nat) : BitVec 64 :=
  memory.load (table + position * 8)

def leafFrame (address page level : Nat) : Nat :=
  address / (4096 * 512 ^ level) * 512 ^ level + page % 512 ^ level

section

variable (format : TableFormat) (memory : WordMemory) (page : Nat)

def walk : Nat → Nat → Option Translation
  | 0, table =>
      match format.decode 0 (entryAt memory table (index page 0)) with
      | .leaf address flags => some ⟨leafFrame address page 0, flags⟩
      | _ => none
  | level + 1, table =>
      match format.decode (level + 1) (entryAt memory table (index page (level + 1))) with
      | .absent => none
      | .leaf address flags => some ⟨leafFrame address page (level + 1), flags⟩
      | .table next => walk level next

/-- The bounds that the tables on the way put on an access, the root's first. -/
def pathFlags : Nat → Nat → List (BitVec 64)
  | 0, _ => []
  | level + 1, table =>
      match format.decode (level + 1) (entryAt memory table (index page (level + 1))) with
      | .table next =>
          format.tableFlags (entryAt memory table (index page (level + 1))) ::
            pathFlags level next
      | _ => []

/-- The walk from the first table passes the second one. -/
inductive Visits : Nat → Nat → Nat → Nat → Prop where
  | here {level table : Nat} : Visits level table level table
  | down {level table next bottom last : Nat}
      (link : format.decode (level + 1) (entryAt memory table (index page (level + 1))) =
        .table next)
      (below : Visits level next bottom last) : Visits (level + 1) table bottom last

end

theorem index_lt (page level : Nat) : index page level < 512 := Nat.mod_lt _ (by decide)

theorem prefix_eq (page level : Nat) :
    page / 512 ^ level = 512 * (page / 512 ^ (level + 1)) + index page level := by
  unfold index
  rw [pow_succ, ← Nat.div_div_eq_div_mul]
  omega

theorem prefix_above {p q low : Nat} (same : p / 512 ^ low = q / 512 ^ low) {high : Nat}
    (above : low ≤ high) : p / 512 ^ high = q / 512 ^ high := by
  obtain ⟨steps, rfl⟩ := Nat.exists_eq_add_of_le above
  rw [pow_add, ← Nat.div_div_eq_div_mul, ← Nat.div_div_eq_div_mul, same]

theorem index_eq {p q low : Nat} (same : p / 512 ^ low = q / 512 ^ low) {high : Nat}
    (above : low ≤ high) : index p high = index q high := by
  unfold index
  rw [prefix_above same above]

section

variable {format : TableFormat} {memory after : WordMemory} {page level table bottom last : Nat}

theorem walk_absent
    (absent : format.decode level (entryAt memory table (index page level)) = .absent) :
    walk format memory page level table = none := by
  cases level with
  | zero => simp only [walk, absent]
  | succ level => simp only [walk, absent]

theorem walk_leaf {address : Nat} {flags : BitVec 64}
    (leaf : format.decode level (entryAt memory table (index page level)) = .leaf address flags) :
    walk format memory page level table = some ⟨leafFrame address page level, flags⟩ := by
  cases level with
  | zero => simp only [walk, leaf]
  | succ level => simp only [walk, leaf]

theorem walk_table {next : Nat}
    (link : format.decode (level + 1) (entryAt memory table (index page (level + 1))) =
      .table next) :
    walk format memory page (level + 1) table = walk format memory page level next := by
  simp only [walk, link]

theorem path_flags_end (ends : ∀ next,
      format.decode level (entryAt memory table (index page level)) ≠ .table next) :
    pathFlags format memory page level table = [] := by
  cases level with
  | zero => rfl
  | succ level =>
      unfold pathFlags
      split
      · rename_i next link
        exact absurd link (ends next)
      · rfl

theorem path_flags_table {next : Nat}
    (link : format.decode (level + 1) (entryAt memory table (index page (level + 1))) =
      .table next) :
    pathFlags format memory page (level + 1) table =
      format.tableFlags (entryAt memory table (index page (level + 1))) ::
        pathFlags format memory page level next := by
  simp only [pathFlags, link]

theorem Visits.le (visits : Visits format memory page level table bottom last) :
    bottom ≤ level := by
  induction visits with
  | here => exact Nat.le_refl _
  | down link below ih => omega

theorem Visits.walk_eq (visits : Visits format memory page level table bottom last) :
    walk format memory page level table = walk format memory page bottom last := by
  induction visits with
  | here => rfl
  | down link below ih => rw [walk_table link, ih]

theorem Visits.trans {low lowest : Nat}
    (visits : Visits format memory page level table bottom last)
    (further : Visits format memory page bottom last low lowest) :
    Visits format memory page level table low lowest := by
  induction visits with
  | here => exact further
  | down link below ih => exact .down link (ih further)

theorem Visits.step {next : Nat}
    (visits : Visits format memory page level table (bottom + 1) last)
    (link : format.decode (bottom + 1) (entryAt memory last (index page (bottom + 1))) =
      .table next) :
    Visits format memory page level table bottom next :=
  visits.trans (.down link .here)

theorem Visits.aligned (visits : Visits format memory page level table bottom last)
    (aligned : table % 4096 = 0) : last % 4096 = 0 := by
  induction visits with
  | here => exact aligned
  | down link below ih => exact ih (format.aligned link)

theorem Visits.between {low lowest : Nat}
    (visits : Visits format memory page level table bottom last)
    (other : Visits format memory page level table low lowest) (le : low ≤ bottom) :
    Visits format memory page bottom last low lowest := by
  induction visits with
  | here => exact other
  | @down level table next bottom last link below ih =>
      cases other with
      | here => exact absurd le (Nat.not_le_of_lt (Nat.lt_succ_of_le below.le))
      | down otherLink otherBelow =>
          rw [link, Decoded.table.injEq] at otherLink
          subst otherLink
          exact ih otherBelow le

theorem Visits.unique {other : Nat}
    (visits : Visits format memory page level table bottom last)
    (again : Visits format memory page level table bottom other) : other = last := by
  have same := visits.between again (Nat.le_refl bottom)
  cases same with
  | here => rfl
  | down link below => exact absurd below.le (by omega)

theorem Visits.passes {middle : Nat}
    (visits : Visits format memory page level table bottom last) (above : bottom ≤ middle)
    (below : middle ≤ level) : ∃ other, Visits format memory page level table middle other := by
  induction visits with
  | @here level table =>
      obtain rfl : middle = level := Nat.le_antisymm below above
      exact ⟨table, .here⟩
  | @down level table next bottom last link rest ih =>
      rcases Nat.lt_or_ge level middle with high | low
      · obtain rfl : middle = level + 1 := Nat.le_antisymm below high
        exact ⟨table, .here⟩
      · obtain ⟨other, reached⟩ := ih above low
        exact ⟨other, .down link reached⟩

theorem Visits.same_prefix {other : Nat}
    (visits : Visits format memory page level table bottom last)
    (same : page / 512 ^ (bottom + 1) = other / 512 ^ (bottom + 1)) :
    Visits format memory other level table bottom last := by
  induction visits with
  | here => exact .here
  | @down level table next bottom last link below ih =>
      have le := below.le
      rw [index_eq same (by omega : bottom + 1 ≤ level + 1)] at link
      exact .down link (ih same)

theorem walk_congr (same : ∀ bottom last, Visits format memory page level table bottom last →
      entryAt after last (index page bottom) = entryAt memory last (index page bottom)) :
    walk format after page level table = walk format memory page level table := by
  induction level generalizing table with
  | zero =>
      simp only [walk]
      rw [same 0 table .here]
  | succ level ih =>
      have here := same (level + 1) table .here
      cases decoded : format.decode (level + 1)
          (entryAt memory table (index page (level + 1))) with
      | absent =>
          rw [walk_absent decoded, walk_absent (here.symm ▸ decoded)]
      | leaf address flags =>
          rw [walk_leaf decoded, walk_leaf (here.symm ▸ decoded)]
      | table next =>
          rw [walk_table decoded, walk_table (here.symm ▸ decoded)]
          exact ih fun bottom last visits => same bottom last (.down decoded visits)

theorem path_flags_congr (same : ∀ bottom last, Visits format memory page level table bottom last →
      entryAt after last (index page bottom) = entryAt memory last (index page bottom)) :
    pathFlags format after page level table = pathFlags format memory page level table := by
  induction level generalizing table with
  | zero => rfl
  | succ level ih =>
      have here := same (level + 1) table .here
      cases decoded : format.decode (level + 1)
          (entryAt memory table (index page (level + 1))) with
      | absent =>
          rw [path_flags_end (by simp [here, decoded]), path_flags_end (by simp [decoded])]
      | leaf address flags =>
          rw [path_flags_end (by simp [here, decoded]), path_flags_end (by simp [decoded])]
      | table next =>
          rw [path_flags_table decoded, path_flags_table (here.symm ▸ decoded), here]
          congr 1
          exact ih fun bottom last visits => same bottom last (.down decoded visits)

theorem Visits.congr (visits : Visits format memory page level table bottom last)
    (same : ∀ middle other, bottom < middle →
      Visits format memory page level table middle other →
      entryAt after other (index page middle) = entryAt memory other (index page middle)) :
    Visits format after page level table bottom last := by
  induction visits with
  | here => exact .here
  | @down level table next bottom last link below ih =>
      have le := below.le
      have here := same (level + 1) table (by omega) .here
      refine .down (here.symm ▸ link) (ih ?_)
      intro middle other above visits
      exact same middle other above (.down link visits)

theorem visits_congr (same : ∀ bottom last, Visits format memory page level table bottom last →
      entryAt after last (index page bottom) = entryAt memory last (index page bottom)) :
    Visits format after page level table bottom last ↔
      Visits format memory page level table bottom last := by
  constructor
  · intro visits
    induction visits with
    | here => exact .here
    | @down level table next bottom last link below ih =>
        rw [same (level + 1) table .here] at link
        exact .down link (ih fun low lowest visits => same low lowest (.down link visits))
  · intro visits
    exact visits.congr fun middle other _ => same middle other

end

section

variable {memory : WordMemory} {table other : Nat}

theorem entry_at_store_same (position : Nat) (entry : BitVec 64) :
    entryAt (memory.store (table + position * 8) entry) table position = entry :=
  Function.update_self _ _ _

theorem entry_at_store_other (aligned : table % 4096 = 0) (otherAligned : other % 4096 = 0)
    {position place : Nat} (inside : position < 512) (placeInside : place < 512)
    (apart : other ≠ table ∨ place ≠ position) (entry : BitVec 64) :
    entryAt (memory.store (table + position * 8) entry) other place =
      entryAt memory other place := by
  apply Function.update_of_ne
  omega

theorem entry_at_eq (memory : WordMemory) {table : Nat} (aligned : table % 4096 = 0)
    (position : Nat) : entryAt memory table position = memory (table / 4096 * 512 + position) := by
  unfold entryAt WordMemory.load
  congr 1
  omega

theorem entry_at_zero_same (aligned : table % 4096 = 0) {position : Nat} (inside : position < 512) :
    entryAt (memory.zeroBlock table 4096) table position = 0#64 := by
  apply if_pos
  unfold WordMemory.inBlock
  omega

theorem entry_at_zero_other (aligned : table % 4096 = 0) (otherAligned : other % 4096 = 0)
    (apart : other ≠ table) {position : Nat} (inside : position < 512) :
    entryAt (memory.zeroBlock table 4096) other position = entryAt memory other position := by
  apply if_neg
  unfold WordMemory.inBlock
  omega

end

/-- A format, the level of the root, and the first entry of the root that
belongs to the user; the entries before it are the kernel's. -/
structure TreeLayout where
  format : TableFormat
  top : Nat
  firstUser : Nat

namespace TreeLayout

variable (layout : TreeLayout)

def IsPage (page : Nat) : Prop := page < 512 ^ (layout.top + 1)

def IsUser (page : Nat) : Prop := layout.IsPage page ∧ layout.firstUser ≤ index page layout.top

def translate (memory : WordMemory) (root page : Nat) : Option Translation :=
  walk layout.format memory page layout.top root

def Meets (memory : WordMemory) (root page level table : Nat) : Prop :=
  Visits layout.format memory page layout.top root level table

/-- Every table is met at one place, and tables and pages of the user are in
use and differ. The kernel's pages are left out: an identity map reaches every
frame, tables included. -/
structure Formed (InUse : Nat → Prop) (memory : WordMemory) (root : Nat) : Prop where
  aligned : root % 4096 = 0
  distinct : ∀ {p q level other table}, layout.IsPage p → layout.IsPage q →
    layout.Meets memory root p level table → layout.Meets memory root q other table →
    level = other ∧ p / 512 ^ (level + 1) = q / 512 ^ (level + 1)
  tables : ∀ {page level table}, layout.IsPage page →
    layout.Meets memory root page level table → InUse (table / 4096)
  apart : ∀ {p q level table found}, layout.IsPage p → layout.IsUser q →
    layout.Meets memory root p level table → layout.translate memory root q = some found →
    found.frame ≠ table / 4096
  leaves : ∀ {page found}, layout.IsUser page → layout.translate memory root page = some found →
    InUse found.frame

def OnlySmallPages (memory : WordMemory) (root : Nat) : Prop :=
  ∀ page level table, layout.IsUser page → layout.Meets memory root page (level + 1) table →
    ∀ address flags, layout.format.decode (level + 1)
      (entryAt memory table (index page (level + 1))) ≠ .leaf address flags

variable {layout} {InUse : Nat → Prop} {memory : WordMemory} {root : Nat}

theorem meets_empty_root (empty : ∀ position, position < 512 →
      layout.format.decode layout.top (entryAt memory root position) = .absent)
    {page level table : Nat} (meets : layout.Meets memory root page level table) :
    level = layout.top ∧ table = root := by
  unfold Meets at meets
  have absent := empty (index page layout.top) (index_lt page layout.top)
  generalize layout.top = top at meets absent
  cases meets with
  | here => exact ⟨rfl, rfl⟩
  | down link below =>
      rw [absent] at link
      cases link

theorem only_small_empty_root (empty : ∀ position, position < 512 →
      layout.format.decode layout.top (entryAt memory root position) = .absent) :
    layout.OnlySmallPages memory root := by
  intro page level table _ meets address flags leaf
  obtain ⟨top, rfl⟩ := meets_empty_root empty meets
  rw [top, empty _ (index_lt _ _)] at leaf
  cases leaf

theorem formed_empty_root (aligned : root % 4096 = 0) (used : InUse (root / 4096))
    (empty : ∀ position, position < 512 →
      layout.format.decode layout.top (entryAt memory root position) = .absent) :
    layout.Formed InUse memory root := by
  have only : ∀ {page level table}, layout.Meets memory root page level table →
      level = layout.top ∧ table = root := meets_empty_root empty
  have nothing : ∀ page, layout.translate memory root page = none := fun page =>
    walk_absent (empty (index page layout.top) (index_lt page layout.top))
  refine ⟨aligned, ?_, ?_, ?_, ?_⟩
  · intro p q level other table isPage otherPage visited again
    obtain ⟨rfl, rfl⟩ := only visited
    obtain ⟨rfl, _⟩ := only again
    exact ⟨rfl, by rw [Nat.div_eq_of_lt isPage, Nat.div_eq_of_lt otherPage]⟩
  · intro page level table _ visited
    obtain ⟨_, rfl⟩ := only visited
    exact used
  · intro p q level table found _ _ _ translated
    rw [nothing] at translated
    cases translated
  · intro page found _ translated
    rw [nothing] at translated
    cases translated

section

variable {p q level table : Nat} {entry : BitVec 64}

theorem Formed.store_elsewhere (formed : layout.Formed InUse memory root) (isPage : layout.IsPage p)
    (otherPage : layout.IsPage q) (meets : layout.Meets memory root p level table)
    {bottom last : Nat} (visited : layout.Meets memory root q bottom last)
    (unread : bottom = level → q / 512 ^ level ≠ p / 512 ^ level) :
    entryAt (memory.store (table + index p level * 8) entry) last (index q bottom) =
      entryAt memory last (index q bottom) := by
  apply entry_at_store_other (meets.aligned formed.aligned) (visited.aligned formed.aligned)
    (index_lt p level) (index_lt q bottom)
  by_contra same
  simp only [not_or, not_not] at same
  obtain ⟨rfl, position⟩ := same
  obtain ⟨rfl, upper⟩ := formed.distinct otherPage isPage visited meets
  apply unread rfl
  rw [prefix_eq q bottom, prefix_eq p bottom, upper, position]

theorem Formed.store_apart (formed : layout.Formed InUse memory root) (isPage : layout.IsPage p)
    (otherPage : layout.IsPage q) (meets : layout.Meets memory root p level table)
    (apart : q / 512 ^ level ≠ p / 512 ^ level) :
    layout.translate (memory.store (table + index p level * 8) entry) root q =
        layout.translate memory root q ∧
      ∀ bottom last, layout.Meets (memory.store (table + index p level * 8) entry) root q
          bottom last ↔ layout.Meets memory root q bottom last := by
  have same : ∀ bottom last, layout.Meets memory root q bottom last →
      entryAt (memory.store (table + index p level * 8) entry) last (index q bottom) =
        entryAt memory last (index q bottom) :=
    fun bottom last visited => formed.store_elsewhere isPage otherPage meets visited fun _ => apart
  exact ⟨walk_congr same, fun bottom last => visits_congr same⟩

theorem Formed.store_above (formed : layout.Formed InUse memory root) (isPage : layout.IsPage p)
    (otherPage : layout.IsPage q) (meets : layout.Meets memory root p level table)
    (same : q / 512 ^ level = p / 512 ^ level) {bottom last : Nat} (above : level ≤ bottom) :
    layout.Meets (memory.store (table + index p level * 8) entry) root q bottom last ↔
      layout.Meets memory root q bottom last := by
  have reaches : layout.Meets memory root q level table :=
    Visits.same_prefix meets (prefix_above same (Nat.le_succ level)).symm
  have keeps : ∀ {low lowest}, level ≤ low → layout.Meets memory root q low lowest →
      layout.Meets (memory.store (table + index p level * 8) entry) root q low lowest := by
    intro low lowest higher visited
    apply Visits.congr visited
    intro middle other upper passed
    exact formed.store_elsewhere isPage otherPage meets passed (by omega)
  constructor
  · intro visited
    obtain ⟨other, passed⟩ := Visits.passes reaches above (Visits.le visited)
    rw [← Visits.unique visited (keeps above passed)]
    exact passed
  · exact keeps above

end

/-- Every walk and every entry of the kernel is the same. -/
structure Keeps (layout : TreeLayout) (root : Nat) (memory after : WordMemory) : Prop where
  walks : ∀ page, layout.IsPage page →
    layout.translate after root page = layout.translate memory root page
  kernel : ∀ position, position < layout.firstUser →
    entryAt after root position = entryAt memory root position

theorem Keeps.refl (layout : TreeLayout) (root : Nat) (memory : WordMemory) :
    layout.Keeps root memory memory :=
  ⟨fun _ _ => rfl, fun _ _ => rfl⟩

theorem Keeps.trans {middle after : WordMemory} (left : layout.Keeps root memory middle)
    (right : layout.Keeps root middle after) : layout.Keeps root memory after where
  walks := fun page isPage => (right.walks page isPage).trans (left.walks page isPage)
  kernel := fun position below => (right.kernel position below).trans (left.kernel position below)

section

variable {p q level table fresh : Nat} {entry : BitVec 64} {Later : Nat → Prop}

theorem Formed.store_kernel (formed : layout.Formed InUse memory root) (isUser : layout.IsUser p)
    (meets : layout.Meets memory root p level table) {position : Nat}
    (below : position < layout.firstUser) :
    entryAt (memory.store (table + index p level * 8) entry) root position =
      entryAt memory root position := by
  have inside := index_lt p layout.top
  have first := isUser.2
  apply entry_at_store_other (meets.aligned formed.aligned) formed.aligned (index_lt p level)
    (by omega)
  by_contra same
  simp only [not_or, not_not] at same
  obtain ⟨rfl, rfl⟩ := same
  obtain ⟨rfl, _⟩ := formed.distinct isUser.1 isUser.1 meets .here
  omega

theorem Formed.change_unused (formed : layout.Formed InUse memory root)
    (few : layout.firstUser ≤ 512) {after : WordMemory}
    (agrees : ∀ frame, InUse frame → ∀ word, word < 512 →
      after (frame * 512 + word) = memory (frame * 512 + word)) :
    layout.Formed InUse after root ∧ layout.Keeps root memory after ∧
      (∀ {page bottom last}, layout.IsPage page →
        (layout.Meets after root page bottom last ↔ layout.Meets memory root page bottom last)) ∧
      (layout.OnlySmallPages memory root → layout.OnlySmallPages after root) := by
  have entries : ∀ {page bottom last position}, layout.IsPage page →
      layout.Meets memory root page bottom last → position < 512 →
      entryAt after last position = entryAt memory last position := by
    intro page bottom last position isPage visited inside
    have aligned := visited.aligned formed.aligned
    rw [entry_at_eq _ aligned, entry_at_eq _ aligned]
    exact agrees _ (formed.tables isPage visited) position inside
  have same : ∀ {page}, layout.IsPage page → ∀ bottom last,
      layout.Meets memory root page bottom last →
      entryAt after last (index page bottom) = entryAt memory last (index page bottom) :=
    fun isPage bottom last visited => entries isPage visited (index_lt _ bottom)
  have walks : ∀ page, layout.IsPage page → layout.translate after root page =
      layout.translate memory root page := fun page isPage => walk_congr (same isPage)
  have meets : ∀ {page bottom last}, layout.IsPage page →
      (layout.Meets after root page bottom last ↔ layout.Meets memory root page bottom last) :=
    fun isPage => visits_congr (same isPage)
  refine ⟨⟨formed.aligned, ?_, ?_, ?_, ?_⟩, ⟨walks, ?_⟩, meets, ?_⟩
  · intro p q level other table isPage otherPage visited again
    exact formed.distinct isPage otherPage ((meets isPage).mp visited) ((meets otherPage).mp again)
  · intro page level table isPage visited
    exact formed.tables isPage ((meets isPage).mp visited)
  · intro p q level table found isPage isUser visited translated
    rw [walks q isUser.1] at translated
    exact formed.apart isPage isUser ((meets isPage).mp visited) translated
  · intro page found isUser translated
    rw [walks page isUser.1] at translated
    exact formed.leaves isUser translated
  · intro position below
    have zero : layout.IsPage 0 := Nat.pow_pos (by decide)
    exact entries zero .here (by omega)
  · intro small page level table isUser visited
    rw [meets isUser.1] at visited
    rw [same isUser.1 _ _ visited]
    exact small page level table isUser visited

theorem Formed.zero_fresh (formed : layout.Formed InUse memory root)
    (few : layout.firstUser ≤ 512) (aligned : fresh % 4096 = 0) (unused : ¬InUse (fresh / 4096)) :
    layout.Formed InUse (memory.zeroBlock fresh 4096) root ∧
      layout.Keeps root memory (memory.zeroBlock fresh 4096) ∧
      (∀ {page bottom last}, layout.IsPage page → (layout.Meets (memory.zeroBlock fresh 4096) root
        page bottom last ↔ layout.Meets memory root page bottom last)) ∧
      (layout.OnlySmallPages memory root →
        layout.OnlySmallPages (memory.zeroBlock fresh 4096) root) := by
  apply formed.change_unused few
  intro frame inUse word inside
  have other : frame ≠ fresh / 4096 := by
    rintro rfl
    exact unused inUse
  apply WordMemory.zero_block_changes
  unfold WordMemory.inBlock
  omega

theorem Formed.mono (formed : layout.Formed InUse memory root)
    (grows : ∀ frame, InUse frame → Later frame) : layout.Formed Later memory root where
  aligned := formed.aligned
  distinct := formed.distinct
  tables := fun isPage visited => grows _ (formed.tables isPage visited)
  apart := formed.apart
  leaves := fun isUser translated => grows _ (formed.leaves isUser translated)

structure Graft (layout : TreeLayout) (InUse : Nat → Prop) (memory : WordMemory)
    (root p level table fresh : Nat) : Prop where
  formed : layout.Formed InUse memory root
  isUser : layout.IsUser p
  meets : layout.Meets memory root p (level + 1) table
  absent : layout.format.decode (level + 1) (entryAt memory table (index p (level + 1))) = .absent
  aligned : fresh % 4096 = 0
  bounded : fresh < 2 ^ 52
  cleared : ∀ position, position < 512 → entryAt memory fresh position = 0#64
  unused : ¬InUse (fresh / 4096)

namespace Graft

theorem fresh_ne (graft : layout.Graft InUse memory root p level table fresh) : fresh ≠ table := by
  rintro rfl
  exact graft.unused (graft.formed.tables graft.isUser.1 graft.meets)

def after (layout : TreeLayout) (memory : WordMemory) (p level table fresh : Nat) : WordMemory :=
  memory.store (table + index p (level + 1) * 8) (layout.format.link fresh)

theorem linked (graft : layout.Graft InUse memory root p level table fresh) {q : Nat}
    (same : q / 512 ^ (level + 1) = p / 512 ^ (level + 1)) :
    layout.format.decode (level + 1)
      (entryAt (after layout memory p level table fresh) table (index q (level + 1))) =
      .table fresh := by
  rw [index_eq same (Nat.le_refl _)]
  unfold after
  rw [entry_at_store_same]
  exact layout.format.linked level graft.aligned graft.bounded

theorem empty (graft : layout.Graft InUse memory root p level table fresh) (q bottom : Nat) :
    layout.format.decode bottom
      (entryAt (after layout memory p level table fresh) fresh (index q bottom)) = .absent := by
  unfold after
  rw [entry_at_store_other (graft.meets.aligned graft.formed.aligned) graft.aligned
    (index_lt p _) (index_lt q bottom) (.inl graft.fresh_ne), graft.cleared _ (index_lt q bottom)]
  exact layout.format.absent bottom

theorem reaches (graft : layout.Graft InUse memory root p level table fresh) {q : Nat}
    (otherPage : layout.IsPage q) (same : q / 512 ^ (level + 1) = p / 512 ^ (level + 1)) :
    layout.Meets (after layout memory p level table fresh) root q (level + 1) table :=
  (graft.formed.store_above graft.isUser.1 otherPage graft.meets same (Nat.le_refl _)).mpr
    (Visits.same_prefix graft.meets (prefix_above same (Nat.le_succ _)).symm)

theorem meets_fresh (graft : layout.Graft InUse memory root p level table fresh) {q : Nat}
    (otherPage : layout.IsPage q) (same : q / 512 ^ (level + 1) = p / 512 ^ (level + 1)) :
    layout.Meets (after layout memory p level table fresh) root q level fresh :=
  (graft.reaches otherPage same).step (graft.linked same)

theorem meets_or (graft : layout.Graft InUse memory root p level table fresh)
    {q bottom last : Nat} (otherPage : layout.IsPage q)
    (visited : layout.Meets (after layout memory p level table fresh) root q bottom last) :
    layout.Meets memory root q bottom last ∨
      bottom = level ∧ last = fresh ∧ q / 512 ^ (level + 1) = p / 512 ^ (level + 1) := by
  by_cases same : q / 512 ^ (level + 1) = p / 512 ^ (level + 1)
  · rcases Nat.lt_or_ge level bottom with above | below
    · exact .inl ((graft.formed.store_above graft.isUser.1 otherPage graft.meets same above).mp
        visited)
    · have rest := (graft.meets_fresh otherPage same).between visited below
      cases rest with
      | here => exact .inr ⟨rfl, rfl, same⟩
      | down link _ =>
          rw [graft.empty] at link
          cases link
  · exact .inl (((graft.formed.store_apart graft.isUser.1 otherPage graft.meets same).2 _ _).mp
      visited)

theorem walk_eq (graft : layout.Graft InUse memory root p level table fresh) {q : Nat}
    (otherPage : layout.IsPage q) :
    layout.translate (after layout memory p level table fresh) root q =
      layout.translate memory root q := by
  by_cases same : q / 512 ^ (level + 1) = p / 512 ^ (level + 1)
  · have before : layout.Meets memory root q (level + 1) table :=
      Visits.same_prefix graft.meets (prefix_above same (Nat.le_succ _)).symm
    have absent := graft.absent
    rw [← index_eq same (Nat.le_refl _)] at absent
    unfold translate
    rw [before.walk_eq, walk_absent absent, (graft.meets_fresh otherPage same).walk_eq]
    exact walk_absent (graft.empty q level)
  · exact (graft.formed.store_apart graft.isUser.1 otherPage graft.meets same).1

theorem keeps (graft : layout.Graft InUse memory root p level table fresh) :
    layout.Keeps root memory (after layout memory p level table fresh) where
  walks := fun _ => graft.walk_eq
  kernel := fun _ => graft.formed.store_kernel graft.isUser graft.meets

theorem formed_after (graft : layout.Graft InUse memory root p level table fresh)
    (grows : ∀ frame, InUse frame → Later frame) (taken : Later (fresh / 4096)) :
    layout.Formed Later (after layout memory p level table fresh) root := by
  have old : ∀ {page bottom}, layout.IsPage page →
      ¬layout.Meets memory root page bottom fresh := fun isPage visited =>
    graft.unused (graft.formed.tables isPage visited)
  refine ⟨graft.formed.aligned, ?_, ?_, ?_, ?_⟩
  · intro p' q' low other last isPage otherPage visited again
    rcases graft.meets_or isPage visited with first | ⟨lowEq, isFresh, first⟩
    · rcases graft.meets_or otherPage again with second | ⟨_, isFresh, _⟩
      · exact graft.formed.distinct isPage otherPage first second
      · exact absurd (isFresh ▸ first) (old isPage)
    · rcases graft.meets_or otherPage again with second | ⟨otherEq, _, second⟩
      · exact absurd (isFresh ▸ second) (old otherPage)
      · rw [lowEq, otherEq]
        exact ⟨rfl, first.trans second.symm⟩
  · intro page low last isPage visited
    rcases graft.meets_or isPage visited with first | ⟨_, rfl, _⟩
    · exact grows _ (graft.formed.tables isPage first)
    · exact taken
  · intro p' q' low last found isPage isUser visited translated
    rw [graft.walk_eq isUser.1] at translated
    rcases graft.meets_or isPage visited with first | ⟨_, rfl, _⟩
    · exact graft.formed.apart isPage isUser first translated
    · intro same
      exact graft.unused (same ▸ graft.formed.leaves isUser translated)
  · intro page found isUser translated
    rw [graft.walk_eq isUser.1] at translated
    exact grows _ (graft.formed.leaves isUser translated)

theorem only_small (graft : layout.Graft InUse memory root p level table fresh)
    (small : layout.OnlySmallPages memory root) :
    layout.OnlySmallPages (after layout memory p level table fresh) root := by
  intro page low last isUser visited address flags leaf
  rcases graft.meets_or isUser.1 visited with earlier | ⟨_, rfl, _⟩
  · by_cases here : low = level ∧ page / 512 ^ (level + 1) = p / 512 ^ (level + 1)
    · obtain ⟨rfl, same⟩ := here
      rw [Visits.unique (graft.reaches isUser.1 same) visited, graft.linked same] at leaf
      cases leaf
    · have unread : low + 1 = level + 1 → page / 512 ^ (level + 1) ≠ p / 512 ^ (level + 1) :=
        fun same other => here ⟨Nat.succ.inj same, other⟩
      unfold after at leaf
      rw [graft.formed.store_elsewhere graft.isUser.1 isUser.1 graft.meets earlier unread] at leaf
      exact small page low last isUser earlier address flags leaf
  · rw [graft.empty] at leaf
    cases leaf

end Graft

theorem Formed.map_leaf (formed : layout.Formed InUse memory root) (isUser : layout.IsUser p)
    (meets : layout.Meets memory root p 0 table) {address : Nat} {flags : BitVec 64}
    (decoded : layout.format.decode 0 entry = .leaf address flags) :
    layout.translate (memory.store (table + index p 0 * 8) entry) root p =
        some ⟨leafFrame address p 0, flags⟩ ∧
      (∀ page, layout.IsPage page → page ≠ p →
        layout.translate (memory.store (table + index p 0 * 8) entry) root page =
          layout.translate memory root page) ∧
      (∀ position, position < layout.firstUser →
        entryAt (memory.store (table + index p 0 * 8) entry) root position =
          entryAt memory root position) ∧
      (InUse (leafFrame address p 0) →
        (∀ page level last, layout.IsPage page → layout.Meets memory root page level last →
          leafFrame address p 0 ≠ last / 4096) →
        layout.Formed InUse (memory.store (table + index p 0 * 8) entry) root) ∧
      (layout.OnlySmallPages memory root →
        layout.OnlySmallPages (memory.store (table + index p 0 * 8) entry) root) := by
  have away : ∀ {page}, page ≠ p → page / 512 ^ 0 ≠ p / 512 ^ 0 := fun other => by
    simpa using other
  have visits : ∀ {page bottom last}, layout.IsPage page →
      (layout.Meets (memory.store (table + index p 0 * 8) entry) root page bottom last ↔
        layout.Meets memory root page bottom last) := by
    intro page bottom last isPage
    by_cases same : page = p
    · subst same
      exact formed.store_above isPage isPage meets rfl (Nat.zero_le bottom)
    · exact (formed.store_apart isUser.1 isPage meets (away same)).2 bottom last
  have mapped : layout.translate (memory.store (table + index p 0 * 8) entry) root p =
      some ⟨leafFrame address p 0, flags⟩ := by
    unfold translate
    rw [((visits isUser.1).mpr meets).walk_eq]
    apply walk_leaf
    rw [entry_at_store_same]
    exact decoded
  have others : ∀ page, layout.IsPage page → page ≠ p →
      layout.translate (memory.store (table + index p 0 * 8) entry) root page =
        layout.translate memory root page := fun page isPage other =>
    (formed.store_apart isUser.1 isPage meets (away other)).1
  have stillSmall : layout.OnlySmallPages memory root →
      layout.OnlySmallPages (memory.store (table + index p 0 * 8) entry) root := by
    intro small page level last otherUser visited
    rw [visits otherUser.1] at visited
    rw [formed.store_elsewhere isUser.1 otherUser.1 meets visited (by omega)]
    exact small page level last otherUser visited
  refine ⟨mapped, others, fun _ => formed.store_kernel isUser meets, ?_, stillSmall⟩
  intro inUse untabled
  refine ⟨formed.aligned, ?_, ?_, ?_, ?_⟩
  · intro p' q' low other last isPage otherPage visited again
    exact formed.distinct isPage otherPage ((visits isPage).mp visited)
      ((visits otherPage).mp again)
  · intro page low last isPage visited
    exact formed.tables isPage ((visits isPage).mp visited)
  · intro p' q' low last found isPage otherUser visited translated
    rw [visits isPage] at visited
    by_cases same : q' = p
    · subst same
      rw [mapped, Option.some.injEq] at translated
      subst translated
      exact untabled p' low last isPage visited
    · rw [others q' otherUser.1 same] at translated
      exact formed.apart isPage otherUser visited translated
  · intro page found otherUser translated
    by_cases same : page = p
    · subst same
      rw [mapped, Option.some.injEq] at translated
      subst translated
      exact inUse
    · rw [others page otherUser.1 same] at translated
      exact formed.leaves otherUser translated

end

end TreeLayout

end RadixTables
