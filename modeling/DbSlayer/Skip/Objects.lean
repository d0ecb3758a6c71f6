import DbSlayer.Json.Serialize
import DbSlayer.Skip.Refinement

/-! # Walking the table of an object

The serializers follow the level-0 links of a table. What they print is a
function of the key and data order alone, so it is fixed by the sequence of
writes and does not depend on the heights that were drawn. The tables behind
JSON objects are the ones the value model keeps as ordered entries.
-/

namespace DbSlayer.Skip

open Foundation Json

variable {κ ν : Type}

/-- The `do … while` loop over level 0: what is printed for a node may depend on
whether another one follows. -/
def walkMembers (heap : List (JsonSkipNode κ ν)) (member : κ → Option ν → Bool → Bytes) :
    Nat → Nat → Option Bytes
  | 0, _ => none
  | fuel + 1, node => do
      let (key, data) ← entryAt heap node
      let next ← nextAt heap 0 node
      let text := member key data next.isSome
      match next with
      | none => some text
      | some node => (text ++ ·) <$> walkMembers heap member fuel node

/-- `json_object_serialize` and `xml_object_serialize`: the count decides whether
the list is walked at all. -/
def objectSerialize (opening closing empty : Bytes) (member : κ → Option ν → Bool → Bytes)
    (head : JsonSkipHead κ ν) : Option Bytes :=
  if head.nodeCount ≠ 0 then do
    match ← nextAt head.heap 0 0 with
    | none => some (opening ++ closing)
    | some node =>
        let body ← walkMembers head.heap member head.heap.length node
        return opening ++ body ++ closing
  else some empty

/-- One round of `json_object_serialize`, over a printer of the values. -/
def jsonMember (value : Option ν → Bytes) (key : Bytes) (data : Option ν) (more : Bool) : Bytes :=
  jsonStringSerialize key ++ bytes " : " ++ value data ++
    (if more then bytes " , " else bytes "\x7d")

def jsonObjectSerialize (value : Option ν → Bytes) : JsonSkipHead Bytes ν → Option Bytes :=
  objectSerialize (bytes "\x7b") [] (bytes "\x7b\x7d") (jsonMember value)

/-- One round of `xml_object_serialize`, over a printer of the values. -/
def xmlMember (value : Option ν → Bytes) (key : Bytes) (data : Option ν) (_more : Bool) : Bytes :=
  bytes "<key>" ++ xmlStringSerialize key ++ bytes "</key>" ++
    (bytes "<value>" ++ value data ++ bytes "</value>")

def xmlObjectSerialize (value : Option ν → Bytes) : JsonSkipHead Bytes ν → Option Bytes :=
  objectSerialize (bytes "<object>") (bytes "</object>") (bytes "<object></object>")
    (xmlMember value)

/-! ## The text of a list of entries -/

def joinMembers (member : κ → Option ν → Bool → Bytes) : List (κ × Option ν) → Bytes
  | [] => []
  | (key, data) :: rest => member key data (!rest.isEmpty) ++ joinMembers member rest

/-- What a table with these entries prints as. -/
def entriesText (opening closing empty : Bytes) (member : κ → Option ν → Bool → Bytes)
    (entries : List (κ × Option ν)) : Bytes :=
  if entries.length % 2 ^ 32 ≠ 0 then opening ++ joinMembers member entries ++ closing else empty

def jsonEntriesText (value : Option ν → Bytes) : List (Bytes × Option ν) → Bytes :=
  entriesText (bytes "\x7b") [] (bytes "\x7b\x7d") (jsonMember value)

def xmlEntriesText (value : Option ν → Bytes) : List (Bytes × Option ν) → Bytes :=
  entriesText (bytes "<object>") (bytes "</object>") (bytes "<object></object>") (xmlMember value)

/-- The walk writes the members in the order of the cells, by induction on them. -/
theorem walkMembers_eq {heap : List (JsonSkipNode κ ν)} {member : κ → Option ν → Bool → Bytes}
    {cell : Cell κ ν} {cells : List (Cell κ ν)} {fuel : Nat}
    (hentry : ∀ other ∈ cell :: cells, entryAt heap other.node = some other.entry)
    (hlinked : Linked (nextAt heap 0) cell.node (cells.map Cell.node))
    (hfuel : cells.length < fuel) :
    walkMembers heap member fuel cell.node =
      some (joinMembers member ((cell :: cells).map Cell.entry)) := by
  induction cells generalizing cell fuel with
  | nil =>
      obtain ⟨fuel, rfl⟩ := Nat.exists_eq_add_one.mpr hfuel
      have hnext : nextAt heap 0 cell.node = some none := hlinked
      simp [walkMembers, hentry cell List.mem_cons_self, hnext, joinMembers, Cell.entry]
  | cons next rest ih =>
      obtain ⟨fuel, rfl⟩ := Nat.exists_eq_add_one.mpr (Nat.zero_lt_of_lt hfuel)
      obtain ⟨hnext, hrest⟩ := hlinked
      have hwalk := ih (fun other hother => hentry other (List.mem_cons_of_mem cell hother)) hrest
        (Nat.lt_of_succ_lt_succ hfuel)
      simp [walkMembers, hentry cell List.mem_cons_self, hnext, hwalk, joinMembers, Cell.entry]

variable {cmp : κ → κ → Int} {head : JsonSkipHead κ ν} {cells : List (Cell κ ν)}

theorem View.entryAt_eq (hview : View cmp head cells) :
    ∀ cell ∈ cells, entryAt head.heap cell.node = some cell.entry := by
  intro cell hcell
  obtain ⟨links, hstored, -⟩ := hview.stored cell hcell
  simp [entryAt, hstored, Cell.entry]

/-- An object is written as the list of its entries, in the order of the bottom level. -/
theorem View.objectSerialize_eq (hview : View cmp head cells) (hpos : 0 < head.height)
    (opening closing empty : Bytes) (member : κ → Option ν → Bool → Bytes) :
    objectSerialize opening closing empty member head =
      some (entriesText opening closing empty member (cells.map Cell.entry)) := by
  have hlinked := hview.linked 0 hpos
  rw [hview.onLevel_zero] at hlinked
  rw [objectSerialize, entriesText, hview.count, List.length_map]
  by_cases hcount : cells.length % 2 ^ 32 = 0
  · rw [if_neg (not_not.mpr hcount), if_neg (not_not.mpr hcount)]
  · rw [if_pos hcount, if_pos hcount]
    cases cells with
    | nil => simp at hcount
    | cons cell rest =>
        obtain ⟨hnext, hrest⟩ := hlinked
        have hfuel : rest.length < head.heap.length := by
          have hlt := hview.length_lt
          simp only [List.length_cons] at hlt
          omega
        simp [hnext, walkMembers_eq hview.entryAt_eq hrest hfuel]

theorem View.levelEntries_eq (hview : View cmp head cells) (hpos : 0 < head.height) :
    levelEntries head = some (cells.map Cell.entry) := by
  have hlinked := hview.linked 0 hpos
  rw [hview.onLevel_zero] at hlinked
  have hchain : levelChain head 0 = some (cells.map Cell.node) :=
    hlinked.collect_eq (by simpa using hview.length_lt)
  have hmap : ∀ rest : List (Cell κ ν), (∀ cell ∈ rest, cell ∈ cells) →
      (rest.map Cell.node).mapM (entryAt head.heap) = some (rest.map Cell.entry) := by
    intro rest hrest
    induction rest with
    | nil => rfl
    | cons cell rest ih =>
        have hhead := hview.entryAt_eq cell (hrest cell List.mem_cons_self)
        have htail := ih fun other hother => hrest other (List.mem_cons_of_mem cell hother)
        simp [hhead, htail]
  rw [levelEntries, hchain]
  exact hmap cells fun _ hcell => hcell

theorem View.levelChain_eq (hview : View cmp head cells) {level : Nat}
    (hlevel : level < head.height) : levelChain head level = some (onLevel level cells) := by
  refine (hview.linked level hlevel).collect_eq ?_
  have hle := (onLevel_sublist level cells).length_le
  have hlt := hview.length_lt
  simp only [List.length_map] at hle
  omega

/-! ## Every run refines the sorted association list -/

/-- The skip list `head`, whose level-0 chain is `nodes`, after the writes `ops`
on a new list of the given height. -/
structure RefinesAssoc (cmp : κ → κ → Int) (height : Nat) (ops : List (AssocOp κ (Option ν)))
    (head : JsonSkipHead κ ν) (nodes : List Nat) : Prop where
  chain : levelChain head 0 = some nodes
  /-- The chain meets every allocated node once. -/
  allocated : nodes.Perm (List.range' 1 (head.heap.length - 1))
  /-- There is one node for every write that found its key absent or did not look. -/
  inserted : ((Assoc.run cmp ops).map Prod.fst).Perm (Assoc.insertedKeys cmp [] ops)
  /-- `node_count` is an `unsigned int`. -/
  count : head.nodeCount = nodes.length % 2 ^ 32
  /-- The keys and data along the chain do not depend on the heights. -/
  entries : levelEntries head = some (Assoc.run cmp ops)
  sorted : Assoc.Sorted cmp (Assoc.run cmp ops)
  /-- The nodes of one key are newest first. -/
  newest : ∀ key, Assoc.stackOf cmp key (Assoc.run cmp ops) =
    ops.foldl (Assoc.stackAfter cmp key) []
  heights : ∀ node ∈ nodes, ∃ cell, head.heap[node]? = some cell ∧ 1 ≤ cell.height ∧
    cell.height ≤ height
  /-- A level is the subsequence of the taller nodes. -/
  levels : ∀ level < height, levelChain head level =
    some (nodes.filter fun node => (head.heap[node]?).any fun cell => level < cell.height)
  get : ∀ key, jsonSkipGet cmp head key = some (Assoc.latest cmp key ops).join
  find : ∀ key, jsonSkipFind cmp head key =
    some (nodes.find? fun node => (entryAt head.heap node).any fun entry => cmp key entry.1 ≤ 0)

theorem View.onLevel_eq_filter (hview : View cmp head cells) (level : Nat) :
    onLevel level cells = (cells.map Cell.node).filter fun node =>
      (head.heap[node]?).any fun cell => level < cell.height := by
  rw [onLevel, List.filter_map]
  congr 1
  apply List.filter_congr
  intro cell hcell
  obtain ⟨links, hstored, -⟩ := hview.stored cell hcell
  simp [hstored]

theorem View.find_eq_find? (hcmp : CmpOrder cmp) (hview : View cmp head cells)
    (hpos : 0 < head.height) (key : κ) :
    jsonSkipFind cmp head key = some ((cells.map Cell.node).find? fun node =>
      (entryAt head.heap node).any fun entry => cmp key entry.1 ≤ 0) := by
  have htest : ∀ cell ∈ cells, (entryAt head.heap cell.node).any
      (fun entry => decide (cmp key entry.1 ≤ 0)) = !decide (0 < cmp key cell.key) := by
    intro cell hcell
    rw [hview.entryAt_eq cell hcell, ← decide_not]
    simp [Cell.entry]
  have hfind : ∀ rest : List (Cell κ ν), (∀ cell ∈ rest, cell ∈ cells) →
      (back cmp key rest).head?.map Cell.node = (rest.map Cell.node).find? fun node =>
        (entryAt head.heap node).any fun entry => cmp key entry.1 ≤ 0 := by
    intro rest hrest
    induction rest with
    | nil => rfl
    | cons cell rest ih =>
        have hcell := htest cell (hrest cell List.mem_cons_self)
        have htail := ih fun other hother => hrest other (List.mem_cons_of_mem cell hother)
        by_cases hbelow : 0 < cmp key cell.key
        · rw [List.map_cons, List.find?_cons_of_neg (by simp [hcell, hbelow]), ← htail]
          simp [back, hbelow]
        · rw [List.map_cons, List.find?_cons_of_pos (by simp [hcell, hbelow])]
          simp [back, hbelow]
  rw [hview.find_eq hcmp hpos key, hfind cells fun _ hcell => hcell]

/-- A view of the heap is all that the refinement asks for. -/
theorem View.refinesAssoc (hcmp : CmpOrder cmp) (hview : View cmp head cells)
    (hpos : 0 < head.height) {ops : List (AssocOp κ (Option ν))}
    (hentries : cells.map Cell.entry = Assoc.run cmp ops) :
    RefinesAssoc cmp head.height ops head (cells.map Cell.node) where
  chain := by rw [hview.levelChain_eq hpos, hview.onLevel_zero]
  allocated := hview.nodes
  inserted := by simpa [Assoc.run] using Assoc.foldl_keys_perm ops []
  count := by rw [hview.count, List.length_map]
  entries := by rw [hview.levelEntries_eq hpos, hentries]
  sorted := Assoc.sorted_run hcmp ops
  newest key := Assoc.stackOf_run hcmp key ops
  heights := by
    intro node hnode
    obtain ⟨cell, hcell, rfl⟩ := List.mem_map.mp hnode
    obtain ⟨links, hstored, -⟩ := hview.stored cell hcell
    exact ⟨_, hstored, hview.heights cell hcell⟩
  levels := by
    intro level hlevel
    rw [hview.levelChain_eq hlevel, hview.onLevel_eq_filter]
  get key := by rw [hview.get_eq hcmp hpos key, hentries, Assoc.get_run hcmp]
  find key := hview.find_eq_find? hcmp hpos key

/-- The tables of the program, over any writes and any `rand()` values: the list
refines the association list, what the serializers print is a function of the
writes, and every height up to the limit is among the ones covered. -/
theorem jsonSkipRun_refinesAssoc (height : Nat) (hheight : 1 ≤ height)
    (ops : List (AssocOp Bytes (Option ν) × Nat)) :
    (∃ head nodes, jsonSkipRun strcmp height ops = some head ∧
      RefinesAssoc strcmp height (ops.map Prod.fst) head nodes ∧
      ∀ value : Option ν → Bytes,
        jsonObjectSerialize value head =
          some (jsonEntriesText value (Assoc.run strcmp (ops.map Prod.fst))) ∧
        xmlObjectSerialize value head =
          some (xmlEntriesText value (Assoc.run strcmp (ops.map Prod.fst)))) ∧
    ∀ drawn, 1 ≤ drawn → drawn ≤ height → ∃ r, randomHeight height r = drawn := by
  refine ⟨?_, fun drawn hlow hhigh => exists_randomHeight_eq hlow hhigh⟩
  obtain ⟨head, cells, hrun, rfl, hview, hentries⟩ := refines_run strcmp_order hheight ops
  refine ⟨head, _, hrun, hview.refinesAssoc strcmp_order hheight hentries, ?_⟩
  intro value
  rw [jsonObjectSerialize, xmlObjectSerialize, hview.objectSerialize_eq hheight,
    hview.objectSerialize_eq hheight, hentries]
  exact ⟨rfl, rfl⟩

theorem jsonSkipRun_refinesAssoc_two :
    ∃ head nodes, jsonSkipRun strcmp 7
        [(.put (bytes "b") (some 1), 5), (.replace (bytes "a") (some 2), 3)] = some head ∧
      RefinesAssoc strcmp 7 [.put (bytes "b") (some 1), .replace (bytes "a") (some 2)] head nodes ∧
      levelEntries head = some [(bytes "a", some 2), (bytes "b", some 1)] := by
  obtain ⟨⟨head, nodes, hrun, hrefines, -⟩, -⟩ := jsonSkipRun_refinesAssoc (ν := Nat) 7
    (by decide) [(.put (bytes "b") (some 1), 5), (.replace (bytes "a") (some 2), 3)]
  exact ⟨head, nodes, hrun, hrefines, hrefines.entries⟩

/-! ## The tables behind objects -/

section Values

variable {δ : Type} [CDouble δ]

/-- The writes that build an object from its members. -/
def memberPuts (members : List ((Bytes × JsonValue δ) × Nat)) :
    List (AssocOp Bytes (Option (JsonValue δ)) × Nat) :=
  members.map fun member => (.put member.1.1 (some member.1.2), member.2)

omit [CDouble δ] in
/-- Putting the members one by one builds the object. -/
theorem run_memberPuts (members : List ((Bytes × JsonValue δ) × Nat)) :
    Assoc.run strcmp ((memberPuts members).map Prod.fst) =
      (objectOf (members.map Prod.fst)).map (Prod.map id some) := by
  have hputs : (memberPuts members).map Prod.fst =
      ((members.map Prod.fst).map (Prod.map id some)).map fun pair => .put pair.1 pair.2 := by
    simp [memberPuts]
  rw [hputs, ← Assoc.ofPairs_eq_run, Assoc.ofPairs_map]
  rfl

theorem jsonEntriesText_eq (entries : Entries δ) :
    jsonEntriesText (fun data => (data.map jsonSerializeInternal).getD [])
      (entries.map (Prod.map id some)) = jsonSerialize (.object entries) := by
  have hjoin : joinMembers (jsonMember fun data => (data.map jsonSerializeInternal).getD [])
      (entries.map (Prod.map id some)) = jsonMembersSerialize entries := by
    induction entries with
    | nil => rfl
    | cons entry rest ih =>
        obtain ⟨key, value⟩ := entry
        rw [List.map_cons, jsonMembersSerialize, ← ih]
        cases rest <;> simp [joinMembers, jsonMember]
  rw [jsonEntriesText, entriesText, hjoin, List.length_map, List.append_nil, jsonSerialize,
    jsonSerializeInternal, nodeCountZero]
  by_cases hcount : entries.length % 2 ^ 32 = 0
  · rw [if_neg (not_not.mpr hcount), if_pos (by simpa using hcount)]
  · rw [if_pos hcount, if_neg (by simpa using hcount)]

theorem xmlEntriesText_eq (entries : Entries δ) :
    xmlEntriesText (fun data => (data.map xmlSerializeInternal).getD [])
      (entries.map (Prod.map id some)) = xmlSerialize (.object entries) := by
  have hjoin : joinMembers (xmlMember fun data => (data.map xmlSerializeInternal).getD [])
      (entries.map (Prod.map id some)) = xmlMembersSerialize entries := by
    induction entries with
    | nil => rfl
    | cons entry rest ih =>
        obtain ⟨key, value⟩ := entry
        rw [List.map_cons, xmlMembersSerialize, ← ih]
        simp [joinMembers, xmlMember]
  rw [xmlEntriesText, entriesText, hjoin, List.length_map, xmlSerialize, xmlSerializeInternal,
    nodeCountZero]
  by_cases hcount : entries.length % 2 ^ 32 = 0
  · rw [if_neg (not_not.mpr hcount), if_pos (by simpa using hcount)]
  · rw [if_pos hcount, if_neg (by simpa using hcount)]

/-- The ordered entries of the value model stand for the skip list of height
seven that the decoder builds: lookups and both printed forms agree. -/
theorem object_table (members : List ((Bytes × JsonValue δ) × Nat)) :
    ∃ head, jsonSkipRun strcmp 7 (memberPuts members) = some head ∧
      (∀ name, jsonSkipGet strcmp head name =
        some (objectGet (objectOf (members.map Prod.fst)) name)) ∧
      jsonObjectSerialize (fun data => (data.map jsonSerializeInternal).getD []) head =
        some (jsonSerialize (.object (objectOf (members.map Prod.fst)))) ∧
      xmlObjectSerialize (fun data => (data.map xmlSerializeInternal).getD []) head =
        some (xmlSerialize (.object (objectOf (members.map Prod.fst)))) := by
  obtain ⟨head, cells, hrun, hheight, hview, hentries⟩ :=
    refines_run strcmp_order (by decide : 1 ≤ 7) (memberPuts members)
  have hpos : 0 < head.height := by omega
  rw [run_memberPuts] at hentries
  refine ⟨head, hrun, ?_, ?_, ?_⟩
  · intro name
    rw [hview.get_eq strcmp_order hpos, hentries, Assoc.get_map, objectGet]
    cases Assoc.get strcmp name (objectOf (members.map Prod.fst)) <;> rfl
  · rw [jsonObjectSerialize, hview.objectSerialize_eq hpos, hentries]
    exact congrArg some (jsonEntriesText_eq _)
  · rw [xmlObjectSerialize, hview.objectSerialize_eq hpos, hentries]
    exact congrArg some (xmlEntriesText_eq _)

end Values

end DbSlayer.Skip
