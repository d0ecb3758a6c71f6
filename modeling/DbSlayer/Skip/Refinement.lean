import DbSlayer.Skip.Heap

/-! # The skip list refines a sorted association list

A view lists the nodes of a skip list in level-0 order. Its levels are filters
of that one list, so the subsequence property is the invariant itself, and
every operation is a step of the sorted association list on the view's entries,
whatever heights were drawn.
-/

namespace DbSlayer.Skip

open Foundation

variable {κ ν : Type}

/-- A node other than the header, without its links. -/
structure Cell (κ ν : Type) where
  node : Nat
  height : Nat
  key : κ
  data : Option ν

def Cell.entry (cell : Cell κ ν) : κ × Option ν := (cell.key, cell.data)

/-- The nodes tall enough to be linked at `level`. -/
def onLevel (level : Nat) (cells : List (Cell κ ν)) : List Nat :=
  (cells.filter fun cell => level < cell.height).map Cell.node

/-- A level is listed part by part. -/
@[simp] theorem onLevel_append (level : Nat) (left right : List (Cell κ ν)) :
    onLevel level (left ++ right) = onLevel level left ++ onLevel level right := by
  simp [onLevel]

theorem onLevel_eq_nil {level : Nat} {cells : List (Cell κ ν)}
    (hshort : ∀ cell ∈ cells, cell.height ≤ level) : onLevel level cells = [] := by
  rw [onLevel, List.map_eq_nil_iff, List.filter_eq_nil_iff]
  intro cell hcell
  simpa using hshort cell hcell

/-- The header is never a cell, so a level is free of it and of repetitions. -/
theorem onLevel_sublist (level : Nat) (cells : List (Cell κ ν)) :
    (onLevel level cells).Sublist (cells.map Cell.node) :=
  List.filter_sublist.map Cell.node

section Order

variable {cmp : κ → κ → Int}

/-- The cells in front of `key`. -/
def front (cmp : κ → κ → Int) (key : κ) (cells : List (Cell κ ν)) : List (Cell κ ν) :=
  cells.takeWhile fun cell => 0 < cmp key cell.key

/-- The cells from the lower bound of `key` on. -/
def back (cmp : κ → κ → Int) (key : κ) (cells : List (Cell κ ν)) : List (Cell κ ν) :=
  cells.dropWhile fun cell => 0 < cmp key cell.key

/-- A key cuts the cells in two. -/
@[simp] theorem front_append_back (key : κ) (cells : List (Cell κ ν)) :
    front cmp key cells ++ back cmp key cells = cells :=
  List.takeWhile_append_dropWhile

theorem entries_front (key : κ) (cells : List (Cell κ ν)) :
    (front cmp key cells).map Cell.entry =
      (cells.map Cell.entry).takeWhile (Assoc.below cmp key) := by
  rw [List.takeWhile_map]
  rfl

theorem entries_back (key : κ) (cells : List (Cell κ ν)) :
    (back cmp key cells).map Cell.entry =
      Assoc.lowerBound cmp key (cells.map Cell.entry) := by
  rw [Assoc.lowerBound, List.dropWhile_map]
  rfl

theorem below_of_mem_front {key : κ} {cells : List (Cell κ ν)} {cell : Cell κ ν}
    (hmem : cell ∈ front cmp key cells) : 0 < cmp key cell.key := by
  simpa using List.mem_takeWhile_imp hmem

theorem not_below_of_mem_back (hcmp : CmpOrder cmp) {key : κ} {cells : List (Cell κ ν)}
    {cell : Cell κ ν} (hsorted : Assoc.Sorted cmp (cells.map Cell.entry))
    (hmem : cell ∈ back cmp key cells) : ¬ 0 < cmp key cell.key := by
  have hentry : cell.entry ∈ Assoc.lowerBound cmp key (cells.map Cell.entry) := by
    rw [← entries_back]
    exact List.mem_map_of_mem hmem
  exact of_decide_eq_false (Assoc.not_below_of_mem_lowerBound hcmp hsorted hentry)

/-- The invariant: what the heap of a skip list holds when its level-0 order is `cells`. -/
structure View (cmp : κ → κ → Int) (head : JsonSkipHead κ ν) (cells : List (Cell κ ν)) :
    Prop where
  header : ∃ links, head.heap[0]? = some ⟨head.height, none, none, links⟩ ∧
    links.length = head.height
  stored : ∀ cell ∈ cells, ∃ links,
    head.heap[cell.node]? = some ⟨cell.height, some cell.key, cell.data, links⟩ ∧
      links.length = cell.height
  heights : ∀ cell ∈ cells, 1 ≤ cell.height ∧ cell.height ≤ head.height
  /-- Every allocated node is a cell exactly once. -/
  nodes : (cells.map Cell.node).Perm (List.range' 1 (head.heap.length - 1))
  linked : ∀ level < head.height, Linked (nextAt head.heap level) 0 (onLevel level cells)
  sorted : Assoc.Sorted cmp (cells.map Cell.entry)
  count : head.nodeCount = cells.length % 2 ^ 32

theorem view_create (height : Nat) :
    View cmp (jsonSkipCreate κ ν height) ([] : List (Cell κ ν)) where
  header := ⟨List.replicate height none, rfl, List.length_replicate⟩
  stored := by simp
  heights := by simp
  nodes := by simp [jsonSkipCreate]
  linked := by
    intro level hlevel
    have hlt : level < height := hlevel
    simp [onLevel, Linked, nextAt, jsonSkipCreate, hlt]
  sorted := List.Pairwise.nil
  count := rfl

namespace View

variable {head : JsonSkipHead κ ν} {cells : List (Cell κ ν)}

theorem heap_pos (hview : View cmp head cells) : 0 < head.heap.length := by
  obtain ⟨links, hheader, _⟩ := hview.header
  exact (List.getElem?_eq_some_iff.mp hheader).1

theorem length_lt (hview : View cmp head cells) : cells.length < head.heap.length := by
  have hlength := hview.nodes.length_eq
  have hpos := hview.heap_pos
  simp only [List.length_map, List.length_range'] at hlength
  omega

theorem nodup (hview : View cmp head cells) : (0 :: cells.map Cell.node).Nodup := by
  rw [List.nodup_cons]
  refine ⟨?_, hview.nodes.nodup_iff.mpr List.nodup_range'⟩
  intro hmem
  have hrange := hview.nodes.mem_iff.mp hmem
  simp at hrange

theorem node_lt (hview : View cmp head cells) {node : Nat}
    (hmem : node ∈ 0 :: cells.map Cell.node) : node < head.heap.length := by
  rcases List.mem_cons.mp hmem with rfl | hmem
  · exact hview.heap_pos
  · have hrange := hview.nodes.mem_iff.mp hmem
    have hpos := hview.heap_pos
    simp only [List.mem_range'_1] at hrange
    omega

/-- Level 0 carries every cell. -/
theorem onLevel_zero (hview : View cmp head cells) :
    onLevel 0 cells = cells.map Cell.node := by
  rw [onLevel, List.filter_eq_self.mpr]
  intro cell hcell
  have hheight := (hview.heights cell hcell).1
  simp only [decide_eq_true_eq]
  omega

end View

/-! ## The descent -/

theorem getLastD_append {α : Type} (left right : List α) (z : α) :
    (left ++ right).getLastD z = right.getLastD (left.getLastD z) := by
  induction left generalizing z with
  | nil => rfl
  | cons x left ih => rw [List.cons_append, List.getLastD_cons, List.getLastD_cons, ih]

/-- The last node in front of `key` at a level, or the header. -/
def cursor (cmp : κ → κ → Int) (key : κ) (cells : List (Cell κ ν)) (level : Nat) : Nat :=
  (onLevel level (front cmp key cells)).getLastD 0

section Descent

variable {heap : List (JsonSkipNode κ ν)} {cells : List (Cell κ ν)} {key : κ}

/-- Along one level the walk passes the nodes in front of the key and stops at
the first one behind it. -/
theorem takeWhile_level (hcmp : CmpOrder cmp) {passes : Nat → Bool} {right : List (Cell κ ν)}
    (level : Nat)
    (hpasses : ∀ cell ∈ cells, passes cell.node = decide (0 < cmp key cell.key))
    (hsorted : Assoc.Sorted cmp (cells.map Cell.entry))
    (hright : ∀ cell ∈ right, cell ∈ front cmp key cells) :
    (right.map Cell.node ++ onLevel level (back cmp key cells)).takeWhile passes =
      right.map Cell.node := by
  have hpass : ∀ node ∈ right.map Cell.node, passes node = true := by
    intro node hnode
    obtain ⟨cell, hcell, rfl⟩ := List.mem_map.mp hnode
    have hmem := hright cell hcell
    rw [hpasses cell ((List.takeWhile_sublist _).subset hmem)]
    exact decide_eq_true (below_of_mem_front hmem)
  rw [List.takeWhile_append_of_pos hpass]
  cases hback : onLevel level (back cmp key cells) with
  | nil => simp
  | cons node rest =>
      have hnode : node ∈ onLevel level (back cmp key cells) := by simp [hback]
      obtain ⟨cell, hcell, rfl⟩ := List.mem_map.mp hnode
      have hmem := (List.mem_filter.mp hcell).1
      have hnot := not_below_of_mem_back hcmp hsorted hmem
      have hfail : ¬ passes cell.node = true := by
        rw [hpasses cell ((List.dropWhile_sublist _).subset hmem)]
        simpa only [decide_eq_true_eq] using hnot
      rw [List.takeWhile_cons_of_neg hfail, List.append_nil]

/-- One level of the descent: from the cursor of the level above to this level's. -/
theorem advance_level (hcmp : CmpOrder cmp) {level : Nat}
    (hlinked : Linked (nextAt heap level) 0 (onLevel level cells))
    (hbelow : ∀ cell ∈ cells,
      keyBelow cmp heap key cell.node = some (decide (0 < cmp key cell.key)))
    (hsorted : Assoc.Sorted cmp (cells.map Cell.entry)) (hlength : cells.length < heap.length) :
    advance (nextAt heap level) (keyBelow cmp heap key) heap.length
      (cursor cmp key cells (level + 1)) = some (cursor cmp key cells level) := by
  -- The upper cursor ends a prefix of this level's nodes in front of the key.
  obtain ⟨left, right, hsplit, hlast⟩ := exists_filter_split
    (fun cell : Cell κ ν => decide (level + 1 < cell.height))
    (fun cell => decide (level < cell.height))
    (fun cell h => by simp only [decide_eq_true_eq] at h ⊢; omega)
    Cell.node 0 (front cmp key cells)
  have hmark : (left.map Cell.node).getLastD 0 = cursor cmp key cells (level + 1) := hlast
  have hfront : onLevel level (front cmp key cells) =
      left.map Cell.node ++ right.map Cell.node := by
    rw [onLevel, hsplit, List.map_append]
  have hlevel : onLevel level cells = left.map Cell.node ++
      (right.map Cell.node ++ onLevel level (back cmp key cells)) := by
    rw [← List.append_assoc, ← hfront, ← onLevel_append, front_append_back]
  have hright : ∀ cell ∈ right, cell ∈ front cmp key cells := by
    intro cell hcell
    have hmem : cell ∈ left ++ right := List.mem_append_right left hcell
    rw [← hsplit] at hmem
    exact (List.mem_filter.mp hmem).1
  have htail := (hlevel ▸ hlinked).drop
  rw [hmark] at htail
  let passes : Nat → Bool := fun node => keyBelow cmp heap key node = some true
  have hpasses : ∀ cell ∈ cells, passes cell.node = decide (0 < cmp key cell.key) := by
    intro cell hcell
    simp [passes, hbelow cell hcell]
  have htest : ∀ node ∈ right.map Cell.node ++ onLevel level (back cmp key cells),
      keyBelow cmp heap key node = some (passes node) := by
    intro node hnode
    have hmem : node ∈ onLevel level cells := hlevel ▸ List.mem_append_right _ hnode
    obtain ⟨cell, hcell, rfl⟩ := List.mem_map.mp hmem
    have hcells := (List.mem_filter.mp hcell).1
    rw [hbelow cell hcells, hpasses cell hcells]
  have hfuel : (right.map Cell.node ++ onLevel level (back cmp key cells)).length <
      heap.length := by
    have hsub := (onLevel_sublist level cells).length_le
    rw [hlevel] at hsub
    simp only [List.length_append, List.length_map] at hsub ⊢
    omega
  rw [htail.advance_eq htest hfuel, takeWhile_level hcmp level hpasses hsorted hright, ← hmark,
    ← getLastD_append, ← hfront, cursor]

/-- The whole descent leaves its cursor at every level. -/
theorem jsonSkipSearch_spec (hcmp : CmpOrder cmp) {limit : Nat}
    (hlinked : ∀ level < limit, Linked (nextAt heap level) 0 (onLevel level cells))
    (hbelow : ∀ cell ∈ cells,
      keyBelow cmp heap key cell.node = some (decide (0 < cmp key cell.key)))
    (hsorted : Assoc.Sorted cmp (cells.map Cell.entry)) (hlength : cells.length < heap.length)
    (height : Nat) (hheight : height ≤ limit) :
    jsonSkipSearch cmp heap key height (cursor cmp key cells height) =
      some (cursor cmp key cells 0, (List.range height).map (cursor cmp key cells)) := by
  induction height with
  | zero => rfl
  | succ height ih =>
      have hadvance := advance_level hcmp (hlinked height hheight) hbelow hsorted hlength
      rw [jsonSkipSearch, hadvance]
      simp [ih (Nat.le_of_succ_le hheight), List.range_succ]

end Descent

/-! ## Operations -/

namespace View

variable {head : JsonSkipHead κ ν} {cells : List (Cell κ ν)}

/-- The comparison in the heap is the one of the cell. -/
theorem keyBelow_eq (hview : View cmp head cells) (key : κ) {cell : Cell κ ν}
    (hcell : cell ∈ cells) :
    keyBelow cmp head.heap key cell.node = some (decide (0 < cmp key cell.key)) := by
  obtain ⟨links, hstored, _⟩ := hview.stored cell hcell
  simp [keyBelow, hstored]

theorem cursor_top (hview : View cmp head cells) (key : κ) :
    cursor cmp key cells head.height = 0 := by
  rw [cursor, onLevel_eq_nil]
  · rfl
  · intro cell hcell
    exact (hview.heights cell ((List.takeWhile_sublist _).subset hcell)).2

/-- The search ends on the last cell in front of the key, on every level, by induction on the
levels that are left. -/
theorem search (hcmp : CmpOrder cmp) (hview : View cmp head cells) (key : κ) :
    jsonSkipSearch cmp head.heap key head.height 0 = some (cursor cmp key cells 0,
      (List.range head.height).map (cursor cmp key cells)) := by
  have hspec := jsonSkipSearch_spec hcmp hview.linked
    (fun cell hcell => hview.keyBelow_eq key hcell) hview.sorted hview.length_lt
    head.height le_rfl
  rwa [hview.cursor_top key] at hspec

/-- Behind the level-0 cursor comes the first cell that is not in front of the key. -/
theorem next_cursor (hview : View cmp head cells) (hpos : 0 < head.height) (key : κ) :
    nextAt head.heap 0 (cursor cmp key cells 0) =
      some ((back cmp key cells).head?.map Cell.node) := by
  have hchain := hview.linked 0 hpos
  have hlevel : onLevel 0 cells =
      onLevel 0 (front cmp key cells) ++ onLevel 0 (back cmp key cells) := by
    rw [← onLevel_append, front_append_back]
  have hback : onLevel 0 (back cmp key cells) = (back cmp key cells).map Cell.node := by
    rw [onLevel, List.filter_eq_self.mpr]
    intro cell hcell
    have hheight := (hview.heights cell ((List.dropWhile_sublist _).subset hcell)).1
    simp only [decide_eq_true_eq]
    omega
  rw [hlevel, hback] at hchain
  have htail := hchain.drop
  change Linked _ (cursor cmp key cells 0) _ at htail
  cases hcells : back cmp key cells with
  | nil =>
      rw [hcells] at htail
      exact htail
  | cons cell rest =>
      rw [hcells] at htail
      exact htail.1

theorem find_eq (hcmp : CmpOrder cmp) (hview : View cmp head cells) (hpos : 0 < head.height)
    (key : κ) :
    jsonSkipFind cmp head key = some ((back cmp key cells).head?.map Cell.node) := by
  rw [jsonSkipFind, hview.search hcmp key]
  exact hview.next_cursor hpos key

theorem get_eq (hcmp : CmpOrder cmp) (hview : View cmp head cells) (hpos : 0 < head.height)
    (key : κ) :
    jsonSkipGet cmp head key = some (Assoc.get cmp key (cells.map Cell.entry)).join := by
  rw [jsonSkipGet, hview.search hcmp key]
  simp only [Option.bind_eq_bind, Option.bind_some, hview.next_cursor hpos key]
  have hbound : (back cmp key cells).map Cell.entry = _ := entries_back key cells
  unfold Assoc.get
  rw [← hbound]
  cases hcells : back cmp key cells with
  | nil => rfl
  | cons cell rest =>
      have hmem : cell ∈ cells :=
        (List.dropWhile_sublist _).subset (hcells ▸ List.mem_cons_self : cell ∈ back cmp key cells)
      obtain ⟨links, hstored, _⟩ := hview.stored cell hmem
      simp only [List.head?_cons, Option.map_some, hstored, Option.bind_some, List.map_cons,
        Cell.entry, Option.pure_def]
      by_cases heq : cmp key cell.key = 0
      · simp [heq]
      · simp [heq]

/-- A cursor is the header or a cell. -/
theorem cursor_mem (key : κ) (cells : List (Cell κ ν)) (level : Nat) :
    cursor cmp key cells level ∈ 0 :: cells.map Cell.node := by
  have hsub : (onLevel level (front cmp key cells)).Sublist (cells.map Cell.node) :=
    (onLevel_sublist level _).trans ((List.takeWhile_sublist _).map Cell.node)
  rw [cursor, List.getLastD_eq_getLast?]
  cases hlast : (onLevel level (front cmp key cells)).getLast? with
  | none => exact List.mem_cons_self
  | some node => exact List.mem_cons_of_mem 0 (hsub.subset (List.mem_of_getLast? hlast))

end View

theorem heightLoop_bounds (allowed height r : Nat) :
    height ≤ heightLoop allowed height r ∧ heightLoop allowed height r ≤ height + allowed := by
  induction allowed generalizing height r with
  | zero => exact ⟨le_rfl, le_rfl⟩
  | succ allowed ih =>
      rw [heightLoop]
      split
      · have hloop := ih (height + 1) (r / 2)
        omega
      · omega

/-- The height of a new node is at least one and at most the limit, for every `rand()`. -/
theorem randomHeight_bounds {limit : Nat} (hlimit : 1 ≤ limit) (r : Nat) :
    1 ≤ randomHeight limit r ∧ randomHeight limit r ≤ limit := by
  have hloop := heightLoop_bounds (limit - 1) 1 r
  unfold randomHeight
  omega

/-- Every height up to the limit is drawn by some `rand()` value. -/
theorem exists_randomHeight_eq {limit height : Nat} (hpos : 1 ≤ height) (hle : height ≤ limit) :
    ∃ r, randomHeight limit r = height := by
  have hloop : ∀ allowed start extra, extra ≤ allowed →
      ∃ r, heightLoop allowed start r = start + extra := by
    intro allowed
    induction allowed with
    | zero =>
        intro start extra hextra
        exact ⟨0, by simp [heightLoop]; omega⟩
    | succ allowed ih =>
        intro start extra hextra
        cases extra with
        | zero => exact ⟨0, by simp [heightLoop]⟩
        | succ extra =>
            obtain ⟨r, hr⟩ := ih (start + 1) extra (by omega)
            refine ⟨2 * r + 1, ?_⟩
            have hodd : (2 * r + 1) % 2 = 1 := by omega
            have hhalf : (2 * r + 1) / 2 = r := by omega
            rw [heightLoop, if_pos hodd, hhalf, hr]
            omega
  obtain ⟨r, hr⟩ := hloop (limit - 1) 1 (height - 1) (by omega)
  exact ⟨r, by rw [randomHeight, hr]; omega⟩

/-- The view after an insertion: one new cell in front of the back. -/
def insertCell (cmp : κ → κ → Int) (cell : Cell κ ν) (cells : List (Cell κ ν)) :
    List (Cell κ ν) :=
  front cmp cell.key cells ++ cell :: back cmp cell.key cells

theorem insertCell_perm (cell : Cell κ ν) (cells : List (Cell κ ν)) :
    (insertCell cmp cell cells).Perm (cell :: cells) := by
  have hmiddle : (insertCell cmp cell cells).Perm
      (cell :: (front cmp cell.key cells ++ back cmp cell.key cells)) := List.perm_middle
  rwa [front_append_back] at hmiddle

/-- The new cell enters the levels it reaches, and no other one: below its height it stands
between the front and the back, above it the level is unchanged. -/
theorem onLevel_insertCell (level : Nat) (cell : Cell κ ν) (cells : List (Cell κ ν)) :
    onLevel level (insertCell cmp cell cells) =
      onLevel level (front cmp cell.key cells) ++
        if level < cell.height then cell.node :: onLevel level (back cmp cell.key cells)
        else onLevel level (back cmp cell.key cells) := by
  by_cases htall : level < cell.height
  · simp [insertCell, onLevel, htall]
  · simp [insertCell, onLevel, htall]

theorem entries_insertCell (cell : Cell κ ν) (cells : List (Cell κ ν)) :
    (insertCell cmp cell cells).map Cell.entry =
      Assoc.put cmp cell.key cell.data (cells.map Cell.entry) := by
  rw [Assoc.put_eq, insertCell, List.map_append, List.map_cons, entries_front, entries_back]
  rfl

namespace View

variable {head : JsonSkipHead κ ν} {cells : List (Cell κ ν)}

section Put

variable (hcmp : CmpOrder cmp) (hview : View cmp head cells) (hpos : 1 ≤ head.height)
include hview

/-- A node that is allocated and not linked yet changes no level. -/
theorem linked_append (node : JsonSkipNode κ ν) {level : Nat} (hlevel : level < head.height) :
    Linked (nextAt (head.heap ++ [node]) level) 0 (onLevel level cells) := by
  refine (hview.linked level hlevel).congr ?_
  intro other hother
  exact nextAt_append
    (hview.node_lt (((onLevel_sublist level cells).cons_cons 0).subset hother))

include hcmp in
/-- Allocating the new node does not change what the search found. -/
theorem search_append (node : JsonSkipNode κ ν) (key : κ) :
    jsonSkipSearch cmp (head.heap ++ [node]) key head.height 0 =
      some (cursor cmp key cells 0, (List.range head.height).map (cursor cmp key cells)) := by
  have hbelow : ∀ cell ∈ cells, keyBelow cmp (head.heap ++ [node]) key cell.node =
      some (decide (0 < cmp key cell.key)) := by
    intro cell hcell
    have hlt := hview.node_lt (List.mem_cons_of_mem 0 (List.mem_map_of_mem hcell))
    rw [← hview.keyBelow_eq key hcell]
    simp [keyBelow, List.getElem?_append_left hlt]
  have hlength : cells.length < (head.heap ++ [node]).length := by
    rw [List.length_append]
    exact Nat.lt_add_right _ hview.length_lt
  have hspec := jsonSkipSearch_spec hcmp (fun level hlevel => hview.linked_append node hlevel)
    hbelow hview.sorted hlength head.height le_rfl
  rwa [hview.cursor_top key] at hspec

include hcmp hpos in
/-- `json_skip_put` completes, keeps the other nodes, and links the new one
into every level below its height. -/
theorem put_linked (key : κ) (value : Option ν) (r : Nat) :
    ∃ heap, jsonSkipPut cmp head key value r =
        some { head with heap, nodeCount := (head.nodeCount + 1) % 2 ^ 32 } ∧
      heap.map shape = (head.heap ++ [jsonSkipNodeCreate head key value r]).map shape ∧
      ∀ level < head.height, Linked (nextAt heap level) 0 (onLevel level (insertCell cmp
        ⟨head.heap.length, randomHeight head.height r, key, value⟩ cells)) := by
  set node := jsonSkipNodeCreate head key value r with hnode
  set cell : Cell κ ν := ⟨head.heap.length, randomHeight head.height r, key, value⟩
  have hheight : cell.height ≤ head.height := (randomHeight_bounds hpos r).2
  have hsplit : ∀ level < head.height, Linked (nextAt (head.heap ++ [node]) level) 0
      (onLevel level (front cmp key cells) ++ onLevel level (back cmp key cells)) := by
    intro level hlevel
    rw [← onLevel_append, front_append_back]
    exact hview.linked_append node hlevel
  have hnew : ∀ level < cell.height, (nextAt (head.heap ++ [node]) level cell.node).isSome := by
    intro level hlevel
    have hlink : node.nextList[level]? = some none := List.getElem?_replicate_of_lt hlevel
    rw [nextAt_append_self, hlink]
    rfl
  have hfix : ∀ level < head.height,
      ((List.range head.height).map (cursor cmp key cells))[level]? =
        some (cursor cmp key cells level) := by
    intro level hlevel
    simp [hlevel]
  have hmark : ∀ level, cursor cmp key cells level ≠ cell.node :=
    fun level => Nat.ne_of_lt (hview.node_lt (cursor_mem key cells level))
  obtain ⟨heap, hlink, hshape, habove, hbelow⟩ := linkLevels_spec cell.height _ hnew
    (fun level hlevel => ⟨_, hfix level (by omega), hmark level,
      (hsplit level (by omega)).drop.read_isSome⟩)
  refine ⟨heap, ?_, hshape, ?_⟩
  · rw [jsonSkipPut, ← hnode]
    simp only [hview.search_append hcmp node key, Option.bind_eq_bind, Option.bind_some]
    rw [show node.height = cell.height from rfl, hlink]
    rfl
  intro level hlevel
  rw [onLevel_insertCell]
  -- the node is spliced into the levels below its height and absent from the others
  by_cases htall : level < cell.height
  · rw [if_pos htall]
    obtain ⟨hinto, hfrom, hframe⟩ := hbelow level _ htall (hfix level hlevel)
    refine (hsplit level hlevel).splice ?_ ?_ hinto hfrom hframe
    · rw [← onLevel_append, front_append_back]
      exact hview.nodup.sublist ((onLevel_sublist level cells).cons_cons 0)
    · rw [← onLevel_append, front_append_back]
      intro hmem
      exact Nat.lt_irrefl _
        (hview.node_lt (((onLevel_sublist level cells).cons_cons 0).subset hmem))
  · rw [if_neg htall]
    refine (hsplit level hlevel).congr ?_
    intro other _
    exact habove level other (Nat.le_of_not_lt htall)

include hcmp hpos in
/-- `json_skip_put` inserts one cell, of whatever height was drawn. -/
theorem put (key : κ) (value : Option ν) (r : Nat) :
    ∃ head', jsonSkipPut cmp head key value r = some head' ∧ head'.height = head.height ∧
      View cmp head' (insertCell cmp
        ⟨head.heap.length, randomHeight head.height r, key, value⟩ cells) := by
  obtain ⟨heap, hput, hshape, hlinked⟩ := hview.put_linked hcmp hpos key value r
  refine ⟨_, hput, rfl, ?_⟩
  set node := jsonSkipNodeCreate head key value r
  set cell : Cell κ ν := ⟨head.heap.length, randomHeight head.height r, key, value⟩ with hcell
  have hperm : (insertCell cmp cell cells).Perm (cell :: cells) := insertCell_perm cell cells
  have hlength : heap.length = head.heap.length + 1 := by
    simpa using congrArg List.length hshape
  have hold : ∀ {other : Nat} {stored : JsonSkipNode κ ν}, head.heap[other]? = some stored →
      ∃ links, heap[other]? = some { stored with nextList := links } ∧
        links.length = stored.nextList.length := by
    intro other stored hstored
    apply getElem?_of_shape_eq hshape
    rw [List.getElem?_append_left (List.getElem?_eq_some_iff.mp hstored).1, hstored]
  constructor
  case header =>
    obtain ⟨links, hheader, hlinks⟩ := hview.header
    obtain ⟨links', hheader', hlinks'⟩ := hold hheader
    exact ⟨links', hheader', hlinks'.trans hlinks⟩
  case stored =>
    intro other hother
    rcases List.mem_cons.mp (hperm.mem_iff.mp hother) with rfl | hother
    · obtain ⟨links, hstored, hlinks⟩ := getElem?_of_shape_eq hshape
        (show (head.heap ++ [node])[cell.node]? = some node by simp [hcell])
      exact ⟨links, hstored, hlinks.trans List.length_replicate⟩
    · obtain ⟨links, hstored, hlinks⟩ := hview.stored other hother
      obtain ⟨links', hstored', hlinks'⟩ := hold hstored
      exact ⟨links', hstored', hlinks'.trans hlinks⟩
  case heights =>
    intro other hother
    rcases List.mem_cons.mp (hperm.mem_iff.mp hother) with rfl | hother
    · exact randomHeight_bounds hpos r
    · exact hview.heights other hother
  case nodes =>
    have hheap := hview.heap_pos
    have hlast : 1 + 1 * (head.heap.length - 1) = cell.node := by
      change _ = head.heap.length
      omega
    have hrange : List.range' 1 (heap.length - 1) =
        List.range' 1 (head.heap.length - 1) ++ [cell.node] := by
      rw [hlength, show head.heap.length + 1 - 1 = (head.heap.length - 1) + 1 by omega,
        List.range'_concat, hlast]
    rw [hrange]
    exact ((hperm.map Cell.node).trans (hview.nodes.cons _)).trans
      (List.perm_append_singleton _ _).symm
  case linked => exact hlinked
  case sorted =>
    rw [entries_insertCell]
    exact Assoc.sorted_put hcmp hview.sorted
  case count =>
    have hcount := hview.count
    have hsize := hperm.length_eq
    rw [List.length_cons] at hsize
    change (head.nodeCount + 1) % 2 ^ 32 = _
    omega

end Put

/-- Overwriting the data of one cell. -/
theorem setData (hview : View cmp head cells) {before after : List (Cell κ ν)}
    {cell : Cell κ ν} {stored : JsonSkipNode κ ν} (hcells : cells = before ++ cell :: after)
    (hstored : head.heap[cell.node]? = some stored) (value : Option ν)
    (hsorted : Assoc.Sorted cmp
      ((before ++ { cell with data := value } :: after).map Cell.entry)) :
    View cmp { head with heap := head.heap.set cell.node { stored with data := value } }
      (before ++ { cell with data := value } :: after) := by
  have hmem : cell ∈ cells := by simp [hcells]
  have hlt : cell.node < head.heap.length := (List.getElem?_eq_some_iff.mp hstored).1
  have hnext : ∀ level node, nextAt (head.heap.set cell.node { stored with data := value })
      level node = nextAt head.heap level node := by
    intro level node
    by_cases heq : cell.node = node
    · subst heq
      simp [nextAt, List.getElem?_set_self hlt, hstored]
    · simp [nextAt, List.getElem?_set_ne heq]
  have hnodes : (before ++ { cell with data := value } :: after).map Cell.node =
      cells.map Cell.node := by
    simp [hcells]
  have hlevels : ∀ level, onLevel level (before ++ { cell with data := value } :: after) =
      onLevel level cells := by
    intro level
    by_cases htall : level < cell.height <;> simp [hcells, onLevel, htall]
  have hcases : ∀ other ∈ before ++ { cell with data := value } :: after,
      other = { cell with data := value } ∨ (other ∈ cells ∧ other.node ≠ cell.node) := by
    intro other hmem'
    have hnodup : (cells.map Cell.node).Nodup := (List.nodup_cons.mp hview.nodup).2
    rw [hcells, List.map_append, List.map_cons, List.nodup_middle, List.nodup_cons] at hnodup
    have houtside : other ∈ before ++ after → other.node ≠ cell.node := by
      intro hin heq
      apply hnodup.1
      rw [← heq, ← List.map_append]
      exact List.mem_map_of_mem hin
    simp only [List.mem_append, List.mem_cons] at hmem'
    rcases hmem' with hin | rfl | hin
    · exact .inr ⟨by simp [hcells, hin], houtside (List.mem_append_left _ hin)⟩
    · exact .inl rfl
    · exact .inr ⟨by simp [hcells, hin], houtside (List.mem_append_right _ hin)⟩
  constructor
  case header =>
    obtain ⟨links, hheader, hlinks⟩ := hview.header
    have hne : cell.node ≠ 0 := by
      intro heq
      exact (List.nodup_cons.mp hview.nodup).1 (heq ▸ List.mem_map_of_mem hmem)
    exact ⟨links, by simpa [List.getElem?_set_ne hne] using hheader, hlinks⟩
  case stored =>
    intro other hmem'
    rcases hcases other hmem' with rfl | ⟨hin, hne⟩
    · obtain ⟨links, hstored', hlinks⟩ := hview.stored cell hmem
      obtain rfl : stored = _ := Option.some.inj (hstored.symm.trans hstored')
      exact ⟨links, by simp [List.getElem?_set_self hlt], hlinks⟩
    · obtain ⟨links, hstored', hlinks⟩ := hview.stored other hin
      exact ⟨links, by simpa [List.getElem?_set_ne (Ne.symm hne)] using hstored', hlinks⟩
  case heights =>
    intro other hmem'
    rcases hcases other hmem' with rfl | ⟨hin, _⟩
    · exact hview.heights cell hmem
    · exact hview.heights other hin
  case nodes =>
    rw [hnodes]
    simpa using hview.nodes
  case linked =>
    intro level hlevel
    rw [hlevels]
    exact (hview.linked level hlevel).congr (fun node _ => hnext level node)
  case sorted => exact hsorted
  case count => simpa [hcells] using hview.count

/-- Every operation of the skip list is the operation of the association list. -/
theorem refines_apply (hcmp : CmpOrder cmp) (hview : View cmp head cells)
    (hpos : 1 ≤ head.height) (op : AssocOp κ (Option ν)) (r : Nat) :
    ∃ head' cells', jsonSkipApply cmp head (op, r) = some head' ∧
      head'.height = head.height ∧ View cmp head' cells' ∧
      cells'.map Cell.entry = Assoc.apply cmp (cells.map Cell.entry) op := by
  have hput : ∀ key value, ∃ head' cells', jsonSkipPut cmp head key value r = some head' ∧
      head'.height = head.height ∧ View cmp head' cells' ∧
      cells'.map Cell.entry = Assoc.put cmp key value (cells.map Cell.entry) := by
    intro key value
    obtain ⟨head', hrun, hheight, hview'⟩ := hview.put hcmp hpos key value r
    exact ⟨head', _, hrun, hheight, hview', entries_insertCell _ cells⟩
  cases op with
  | put key value => exact hput key value
  | replace key value =>
      have hfind := hview.find_eq hcmp hpos key
      have hbound : (back cmp key cells).map Cell.entry = _ := entries_back key cells
      cases hback : back cmp key cells with
      | nil =>
          rw [hback] at hfind hbound
          have hreplace : Assoc.replace cmp key value (cells.map Cell.entry) =
              Assoc.put cmp key value (cells.map Cell.entry) := by
            simp [Assoc.replace, ← hbound]
          obtain ⟨head', cells', hrun, hrest⟩ := hput key value
          refine ⟨head', cells', ?_, by rw [Assoc.apply, hreplace]; exact hrest⟩
          simp [jsonSkipApply, jsonSkipReplace, hfind, hrun]
      | cons cell rest =>
          rw [hback] at hfind hbound
          have hcells : cells = front cmp key cells ++ cell :: rest := by
            rw [← hback, front_append_back]
          obtain ⟨links, hstored, _⟩ := hview.stored cell (by rw [hcells]; simp)
          by_cases heq : cmp key cell.key = 0
          · have hentries : (front cmp key cells ++ { cell with data := value } :: rest).map
                Cell.entry = Assoc.replace cmp key value (cells.map Cell.entry) := by
              rw [Assoc.replace, ← hbound]
              simp [entries_front, Cell.entry, heq]
            have hsorted : Assoc.Sorted cmp (Assoc.replace cmp key value _) :=
              Assoc.sorted_replace hcmp hview.sorted
            rw [← hentries] at hsorted
            have hview' := hview.setData hcells hstored value hsorted
            refine ⟨_, _, ?_, ?_, hview', hentries⟩
            · simp [jsonSkipApply, jsonSkipReplace, hfind, hstored, heq]
            · rfl
          · have hreplace : Assoc.replace cmp key value (cells.map Cell.entry) =
                Assoc.put cmp key value (cells.map Cell.entry) := by
              simp [Assoc.replace, ← hbound, Cell.entry, heq]
            obtain ⟨head', cells', hrun, hrest⟩ := hput key value
            refine ⟨head', cells', ?_, by rw [Assoc.apply, hreplace]; exact hrest⟩
            simp [jsonSkipApply, jsonSkipReplace, hfind, hstored, heq, hrun]

end View

/-- Any run of writes completes and refines the run of the association list. -/
theorem refines_run (hcmp : CmpOrder cmp) {height : Nat} (hheight : 1 ≤ height)
    (ops : List (AssocOp κ (Option ν) × Nat)) :
    ∃ head cells, jsonSkipRun cmp height ops = some head ∧ head.height = height ∧
      View cmp head cells ∧ cells.map Cell.entry = Assoc.run cmp (ops.map Prod.fst) := by
  induction ops using List.reverseRecOn with
  | nil => exact ⟨jsonSkipCreate κ ν height, [], rfl, rfl, view_create height, rfl⟩
  | append_singleton ops op ih =>
      obtain ⟨head, cells, hrun, rfl, hview, hentries⟩ := ih
      obtain ⟨head', cells', hstep, hheight', hview', hentries'⟩ :=
        hview.refines_apply hcmp hheight op.1 op.2
      refine ⟨head', cells', ?_, hheight', hview', ?_⟩
      · unfold jsonSkipRun at hrun ⊢
        rw [List.foldlM_append, hrun]
        simp [hstep]
      · rw [hentries', hentries, List.map_append, List.map_singleton,
          Assoc.run_append_singleton]

end Order

end DbSlayer.Skip
