import DbSlayer.Foundation.Ring
import DbSlayer.Json.RoundTrip

/-! # The log

`slayer_server_logging.c`. A manager appends lines to a file and keeps the last
entries in a ring. The text of an entry is a copy made by `strdup`, which the
manager owns until it gives it to `free`; the mutexes make each call one step.
-/

namespace DbSlayer.Server

open DbSlayer.Json Foundation

/-! ## Copies of strings -/

/-- The blocks that a manager got from `strdup`, one for each call, and those that it
gave to `free`. -/
structure StringHeap where
  blocks : List Bytes
  freed : List Nat
deriving DecidableEq, Repr

/-- `strdup` returns a block that it never returned before. -/
def StringHeap.strdup (heap : StringHeap) (s : Bytes) : StringHeap × Nat :=
  ({ heap with blocks := heap.blocks ++ [cstr s] }, heap.blocks.length)

/-- `free` does nothing for a null pointer. -/
def StringHeap.free (heap : StringHeap) : Option Nat → StringHeap
  | none => heap
  | some block => { heap with freed := heap.freed ++ [block] }

/-! ## The manager -/

/-- `slayer_server_log_manager_t`, with what its file holds when it has one. The entries
are the `json_view` pointers. -/
structure LogManager where
  file : Option Bytes
  entries : List (Option Nat)
  offset : Nat
  nentries : Nat
  jsonLogs : Bool
  heap : StringHeap
  entries_length : entries.length = nentries
  offset_lt : offset < nentries

/-- `slayer_server_log_open`. The file is opened for appending; when that fails there is
no manager to use. -/
def slayerServerLogOpen (aprFileOpen : Bytes → Option Bytes) (filename : Option Bytes)
    (nentries : Nat) (hentries : 0 < nentries) : Option LogManager :=
  let manager : LogManager :=
    { file := none
      entries := List.replicate nentries none
      offset := 0
      nentries
      jsonLogs := false
      heap := ⟨[], []⟩
      entries_length := List.length_replicate
      offset_lt := hentries }
  match filename with
  | none => some manager
  | some name => (aprFileOpen name).map fun contents => { manager with file := some contents }

/-! ## The ring of entries -/

/-- What both functions do with their text: the slot behind the offset takes a copy of
it, and the copy that stood there is freed. -/
def LogManager.put (manager : LogManager) (text : Bytes) : LogManager :=
  let copy := manager.heap.strdup text
  let offset := Ring.following manager.nentries manager.offset
  { manager with
    offset
    entries := manager.entries.set offset (some copy.2)
    heap := copy.1.free (manager.entries.getD offset none)
    entries_length := by simp [manager.entries_length]
    offset_lt := Ring.following_lt manager.offset_lt }

section Entries

variable {δ : Type}

/-- The object of `slayer_server_log_add_entry`. -/
def entryContainer (clientIp : Bytes) (rtime : Int64) (requestLine : Bytes) (responseCode : Int32)
    (nbytesSent : UInt64) (timeToservice : Int64) : JsonValue δ :=
  .object (objectOf [
    (bytes "client_ip", jsonStringCreate clientIp),
    (bytes "request_time", .long (rtime / (1000 * 1000))),
    (bytes "request", jsonStringCreate requestLine),
    (bytes "response_code", .long responseCode.toInt64),
    (bytes "bytes_sent", .long nbytesSent.toInt64),
    (bytes "time_toservice", .long timeToservice)])

/-- The object of `slayer_server_log_add_error`. -/
def errorContainer (clientIp : Bytes) (rtime : Int64) (requestLine errorMsg : Bytes) :
    JsonValue δ :=
  .object (objectOf [
    (bytes "client_ip", jsonStringCreate clientIp),
    (bytes "request_time", .long (rtime / (1000 * 1000))),
    (bytes "request", jsonStringCreate requestLine),
    (bytes "error", jsonStringCreate errorMsg)])

end Entries

section Calls

variable (δ : Type) [CDouble δ]

def slayerServerLogAddEntry (manager : LogManager) (clientIp : Bytes) (rtime : Int64)
    (requestLine : Bytes) (responseCode : Int32) (nbytesSent : UInt64) (timeToservice : Int64) :
    LogManager :=
  manager.put (jsonSerialize (entryContainer clientIp rtime requestLine responseCode nbytesSent
    timeToservice : JsonValue δ))

def slayerServerLogAddError (manager : LogManager) (clientIp : Bytes) (rtime : Int64)
    (requestLine errorMsg : Bytes) : LogManager :=
  manager.put (jsonSerialize (errorContainer clientIp rtime requestLine errorMsg : JsonValue δ))

end Calls

/-- The body of both loops of `slayer_server_log_get_entries`: no comma behind the
opening bracket. -/
def LogManager.appendView (manager : LogManager) (text : Bytes) : Option Nat → Bytes
  | none => text
  | some block =>
      text ++ (if strcmp text (bytes "[") = 0 then [] else bytes ",") ++
        manager.heap.blocks.getD block []

/-- The first loop runs from behind the offset to the end, the second one from the
beginning to the offset itself. -/
def slayerServerLogGetEntries (manager : LogManager) : Bytes :=
  let body := fun text i => manager.appendView text (manager.entries.getD i none)
  let upper := (List.range' (manager.offset + 1) (manager.nentries - (manager.offset + 1))).foldl
    body (bytes "[")
  (List.range (manager.offset + 1)).foldl body upper ++ bytes "]"

/-! ## Runs of calls -/

/-- A call that puts an entry into the ring. -/
inductive LogCall where
  | entry (clientIp : Bytes) (rtime : Int64) (requestLine : Bytes) (responseCode : Int32)
      (nbytesSent : UInt64) (timeToservice : Int64)
  | error (clientIp : Bytes) (rtime : Int64) (requestLine errorMsg : Bytes)
deriving DecidableEq

/-- What a call logs. -/
def LogCall.container {δ : Type} : LogCall → JsonValue δ
  | entry clientIp rtime requestLine responseCode nbytesSent timeToservice =>
      entryContainer clientIp rtime requestLine responseCode nbytesSent timeToservice
  | error clientIp rtime requestLine errorMsg =>
      errorContainer clientIp rtime requestLine errorMsg

section Runs

variable (δ : Type) [CDouble δ]

def LogCall.apply (manager : LogManager) : LogCall → LogManager
  | entry clientIp rtime requestLine responseCode nbytesSent timeToservice =>
      slayerServerLogAddEntry δ manager clientIp rtime requestLine responseCode nbytesSent
        timeToservice
  | error clientIp rtime requestLine errorMsg =>
      slayerServerLogAddError δ manager clientIp rtime requestLine errorMsg

/-- The text that a call puts into the ring. -/
def LogCall.text (call : LogCall) : Bytes := jsonSerialize (call.container : JsonValue δ)

/-- Both kinds of calls put their text into the ring. -/
theorem apply_eq_put (manager : LogManager) (call : LogCall) :
    call.apply δ manager = manager.put (call.text δ) := by
  cases call <;> rfl

end Runs

/-- The manager after texts were put, one after the other: block `k` is the copy of text
`k`, the ring holds the last blocks, and the blocks in front of them were freed. -/
structure Keeps (manager : LogManager) (texts : List Bytes) : Prop where
  blocks : manager.heap.blocks = texts.map cstr
  ring : Ring.unrolled manager.entries manager.offset =
    Ring.recent manager.nentries none ((List.range texts.length).map some)
  freed : manager.heap.freed = List.range (texts.length - manager.nentries)

theorem LogManager.offset_lt_entries (manager : LogManager) :
    manager.offset < manager.entries.length := by
  rw [manager.entries_length]
  exact manager.offset_lt

theorem nentries_pos (manager : LogManager) : 0 < manager.nentries :=
  Nat.zero_lt_of_lt manager.offset_lt

theorem keeps_open {aprFileOpen : Bytes → Option Bytes} {filename : Option Bytes} {nentries : Nat}
    {hentries : 0 < nentries} {manager : LogManager}
    (hopen : slayerServerLogOpen aprFileOpen filename nentries hentries = some manager) :
    manager.nentries = nentries ∧ Keeps manager [] := by
  have hring : Ring.unrolled (List.replicate nentries (none : Option Nat)) 0 =
      Ring.recent nentries none [] := by
    obtain ⟨count, rfl⟩ := Nat.exists_eq_add_one.mpr hentries
    rw [Ring.recent_nil, Ring.unrolled, List.drop_replicate, List.take_replicate]
    exact List.replicate_append_replicate
  cases filename with
  | none =>
      obtain rfl := Option.some.inj hopen
      exact ⟨rfl, rfl, hring, by simp⟩
  | some name =>
      obtain ⟨contents, -, rfl⟩ := Option.map_eq_some_iff.mp hopen
      exact ⟨rfl, rfl, hring, by simp⟩

/-- The copy that is replaced is the oldest one, once the ring is full. -/
theorem Keeps.replaced {manager : LogManager} {texts : List Bytes}
    (hkeeps : Keeps manager texts) :
    manager.entries.getD (Ring.following manager.nentries manager.offset) none =
      if texts.length < manager.nentries then none
      else some (texts.length - manager.nentries) := by
  have hhead := Ring.getD_following manager.offset_lt_entries none
  rw [manager.entries_length, hkeeps.ring, Ring.headD_recent (nentries_pos manager),
    List.length_map, List.length_range] at hhead
  rw [hhead]
  split
  next => rfl
  next hfull =>
    have hpos := nentries_pos manager
    have hlt : texts.length - manager.nentries < texts.length := by omega
    simp [hlt]

/-- A text without NUL is copied whole. -/
theorem Keeps.blocks_eq {manager : LogManager} {texts : List Bytes} (hkeeps : Keeps manager texts)
    (hfree : ∀ text ∈ texts, NulFree text) : manager.heap.blocks = texts := by
  rw [hkeeps.blocks]
  exact (List.map_congr_left fun text htext => cstr_of_nulFree (hfree text htext)).trans
    (List.map_id _)

/-- The slots hold the blocks that were not freed. -/
theorem Keeps.retained {manager : LogManager} {texts : List Bytes} (hkeeps : Keeps manager texts)
    (block : Nat) : some block ∈ manager.entries ↔
      texts.length - manager.nentries ≤ block ∧ block < texts.length := by
  have hblank : some block ∉ List.replicate (manager.nentries - texts.length) none := by simp
  rw [← Ring.mem_unrolled, hkeeps.ring, Ring.recent_eq, List.length_map, List.length_range,
    List.mem_append, or_iff_right hblank, ← List.map_drop, List.range_eq_range', List.drop_range']
  simp only [List.mem_map, List.mem_range'_1, Option.some.injEq, exists_eq_right]
  omega

/-- Putting a text adds it to what was put, and the block it replaces is the oldest one. -/
theorem put_keeps {manager : LogManager} {texts : List Bytes} (hkeeps : Keeps manager texts)
    (text : Bytes) : Keeps (manager.put text) (texts ++ [text]) where
  blocks := by
    have hfree : ∀ (heap : StringHeap) view, (heap.free view).blocks = heap.blocks := by
      intro heap view
      cases view <;> rfl
    simp [LogManager.put, hfree, StringHeap.strdup, hkeeps.blocks]
  ring := by
    have hring := hkeeps.ring
    have hlength : manager.heap.blocks.length = texts.length := by
      rw [hkeeps.blocks, List.length_map]
    rw [List.length_append, List.length_singleton, List.range_succ, List.map_append,
      List.map_singleton, ← hlength]
    rw [← hlength] at hring
    exact Ring.unrolled_following_recent manager.entries_length manager.offset_lt hring _
  freed := by
    simp only [LogManager.put, StringHeap.strdup, hkeeps.replaced, List.length_append,
      List.length_singleton]
    split
    next hroom =>
      rw [StringHeap.free, hkeeps.freed, Nat.sub_eq_zero_of_le hroom.le,
        Nat.sub_eq_zero_of_le hroom]
    next hfull =>
      rw [StringHeap.free, hkeeps.freed, Nat.sub_add_comm (not_lt.mp hfull), List.range_succ]

theorem nentries_put (manager : LogManager) (text : Bytes) :
    (manager.put text).nentries = manager.nentries := rfl

/-- After any calls the ring keeps the texts of these calls behind those it had before, by
induction on the calls. -/
theorem run_keeps (δ : Type) [CDouble δ] {manager : LogManager} {texts : List Bytes}
    (hkeeps : Keeps manager texts) (calls : List LogCall) :
    (calls.foldl (LogCall.apply δ) manager).nentries = manager.nentries ∧
      Keeps (calls.foldl (LogCall.apply δ) manager) (texts ++ calls.map (LogCall.text δ)) := by
  induction calls generalizing manager texts with
  | nil =>
      rw [List.map_nil, List.append_nil]
      exact ⟨rfl, hkeeps⟩
  | cons call rest ih =>
      have hput := put_keeps hkeeps (call.text δ)
      rw [← apply_eq_put] at hput
      obtain ⟨hsize, hrest⟩ := ih hput
      refine ⟨?_, ?_⟩
      · rw [List.foldl_cons, hsize, apply_eq_put, nentries_put]
      · rw [List.foldl_cons, List.map_cons, List.append_cons]
        exact hrest

/-! ## The text of the entries -/

/-- The two loops visit the ring from its oldest entry to its last one. -/
theorem slayerServerLogGetEntries_eq (manager : LogManager) :
    slayerServerLogGetEntries manager =
      (Ring.unrolled manager.entries manager.offset).foldl manager.appendView (bytes "[") ++
        bytes "]" := by
  rw [← Ring.map_unrolled manager.offset_lt_entries none, List.foldl_map, List.foldl_append,
    manager.entries_length]
  rfl

theorem foldl_appendView_none (manager : LogManager) (count : Nat) (text : Bytes) :
    (List.replicate count none).foldl manager.appendView text = text := by
  induction count with
  | zero => rfl
  | succ count ih =>
      rw [List.replicate_succ, List.foldl_cons]
      exact ih

/-- Behind the first view every view has a comma in front. -/
theorem foldl_appendView_some {manager : LogManager} {texts : List Bytes}
    (hblocks : manager.heap.blocks = texts) (hfree : ∀ text ∈ texts, NulFree text)
    {views : List Nat} (hviews : ∀ view ∈ views, view < texts.length) {joined : Bytes}
    (hjoined : NulFree joined) (hne : joined ≠ []) :
    (views.map some).foldl manager.appendView (bytes "[" ++ joined) =
      bytes "[" ++ (joined ++ views.flatMap fun view => bytes "," ++ texts.getD view []) := by
  induction views generalizing joined with
  | nil => simp
  | cons view rest ih =>
      have hlt := hviews view List.mem_cons_self
      have htext : NulFree (texts.getD view []) := by
        rw [List.getD_eq_getElem?_getD, List.getElem?_eq_getElem hlt]
        exact hfree _ (List.getElem_mem hlt)
      have hopen : NulFree (bytes "[") := by decide
      have hcomma : NulFree (bytes ",") := by decide
      have hapart : strcmp (bytes "[" ++ joined) (bytes "[") ≠ 0 := by
        rw [Ne, strcmp_eq_zero_iff (nulFree_append.mpr ⟨hopen, hjoined⟩) hopen]
        simpa using hne
      have hrest := ih (fun other hother => hviews other (List.mem_cons_of_mem view hother))
        (nulFree_append.mpr ⟨hjoined, nulFree_append.mpr ⟨hcomma, htext⟩⟩)
        (List.append_ne_nil_of_left_ne_nil hne _)
      rw [List.map_cons, List.foldl_cons, LogManager.appendView, if_neg hapart, hblocks]
      simpa using hrest

/-- A comma stands between any two views. -/
theorem foldl_appendView {manager : LogManager} {texts : List Bytes}
    (hblocks : manager.heap.blocks = texts) (hfree : ∀ text ∈ texts, NulFree text)
    (hne : ∀ text ∈ texts, text ≠ []) {views : List Nat}
    (hviews : ∀ view ∈ views, view < texts.length) :
    (views.map some).foldl manager.appendView (bytes "[") =
      bytes "[" ++ [ch ','].intercalate (views.map fun view => texts.getD view []) := by
  have hjoin : ∀ (first : Bytes) (rest : List Bytes),
      [ch ','].intercalate (first :: rest) = first ++ rest.flatMap (bytes "," ++ ·) := by
    intro first rest
    induction rest generalizing first with
    | nil => simp
    | cons next rest ih =>
        rw [List.intercalate_cons_cons, ih, List.flatMap_cons]
        simp [bytes]
  cases views with
  | nil => simp
  | cons view rest =>
      have hlt := hviews view List.mem_cons_self
      have hmem : texts.getD view [] ∈ texts := by
        rw [List.getD_eq_getElem?_getD, List.getElem?_eq_getElem hlt]
        exact List.getElem_mem hlt
      have hfirst : strcmp (bytes "[") (bytes "[") = 0 := by decide
      rw [List.map_cons, List.foldl_cons, LogManager.appendView, if_pos hfirst, hblocks,
        List.append_nil, foldl_appendView_some hblocks hfree
          (fun other hother => hviews other (List.mem_cons_of_mem view hother))
          (hfree _ hmem) (hne _ hmem), List.map_cons, hjoin, List.flatMap_map]

/-- The reader gives the kept texts in the order they were put. -/
theorem Keeps.getEntries {manager : LogManager} {texts : List Bytes} (hkeeps : Keeps manager texts)
    (hfree : ∀ text ∈ texts, NulFree text) (hne : ∀ text ∈ texts, text ≠ []) :
    slayerServerLogGetEntries manager =
      bytes "[" ++ ([ch ','].intercalate (texts.drop (texts.length - manager.nentries)) ++
        bytes "]") := by
  have hviews : ∀ view ∈ (List.range texts.length).drop (texts.length - manager.nentries),
      view < texts.length := fun view hview => List.mem_range.mp (List.mem_of_mem_drop hview)
  have hread : ((List.range texts.length).drop (texts.length - manager.nentries)).map
      (fun view => texts.getD view []) = texts.drop (texts.length - manager.nentries) := by
    have hall : (List.range' 0 texts.length).map (fun view => texts.getD view []) = texts := by
      rw [Ring.map_range'_getD (Nat.zero_add _).le, List.drop_zero, List.take_length]
    rw [List.map_drop, List.range_eq_range', hall]
  rw [slayerServerLogGetEntries_eq, hkeeps.ring, Ring.recent_eq, List.foldl_append,
    foldl_appendView_none, List.length_map, List.length_range, ← List.map_drop,
    foldl_appendView (hkeeps.blocks_eq hfree) hfree hne hviews, hread, List.append_assoc]

/-! ## What is read back -/

variable {δ : Type} [CDouble δ]

/-- What the fields of an entry say, by the arguments of the call: texts up to a zero byte,
the time in seconds, and the numbers as they are. -/
def LogCall.fields {δ : Type} : LogCall → List (String × JsonValue δ)
  | entry clientIp rtime requestLine responseCode nbytesSent timeToservice =>
      [("client_ip", .string (cstr clientIp)), ("request_time", .long (rtime / 1000000)),
        ("request", .string (cstr requestLine)), ("response_code", .long responseCode.toInt64),
        ("bytes_sent", .long nbytesSent.toInt64), ("time_toservice", .long timeToservice)]
  | error clientIp rtime requestLine errorMsg =>
      [("client_ip", .string (cstr clientIp)), ("request_time", .long (rtime / 1000000)),
        ("request", .string (cstr requestLine)), ("error", .string (cstr errorMsg))]

/-- The value is an object with the fields of the call and no others. -/
def LogCall.Logged {δ : Type} (call : LogCall) (value : JsonValue δ) : Prop :=
  ∃ entries, value = .object entries ∧ entries.length = call.fields (δ := δ).length ∧
    ∀ field ∈ call.fields, objectGet entries (bytes field.1) = some field.2

omit [CDouble δ] in
/-- The builder of an entry adds the fields of the call. -/
theorem LogCall.container_eq (call : LogCall) :
    (call.container : JsonValue δ) =
      .object (objectOf (call.fields.map fun field => (bytes field.1, field.2))) := by
  cases call <;> rfl

omit [CDouble δ] in
/-- Every call logs a flat record. -/
theorem LogCall.flat (call : LogCall) :
    FlatRecord (call.fields.map fun field => (bytes field.1, (field.2 : JsonValue δ))) := by
  cases call with
  | entry clientIp rtime requestLine responseCode nbytesSent timeToservice =>
      constructor
      · simp only [fields, List.map_cons, List.map_nil]
        decide
      · simp only [fields, List.map_cons, List.map_nil, List.forall_mem_cons, List.not_mem_nil,
          false_imp_iff, implies_true, and_true]
        decide
      · simp [fields, nulFree_cstr]
      · simp [fields]
  | error clientIp rtime requestLine errorMsg =>
      constructor
      · simp only [fields, List.map_cons, List.map_nil]
        decide
      · simp only [fields, List.map_cons, List.map_nil, List.forall_mem_cons, List.not_mem_nil,
          false_imp_iff, implies_true, and_true]
        decide
      · simp [fields, nulFree_cstr]
      · simp [fields]

omit [CDouble δ] in
/-- The object that a call builds holds what the call was given. -/
theorem LogCall.logged (call : LogCall) : call.Logged (call.container : JsonValue δ) := by
  have hflat := @LogCall.flat δ call
  refine ⟨_, call.container_eq, ?_, fun field hfield => ?_⟩
  · rw [(objectOf_perm _).length_eq, List.length_map]
  · exact objectGet_of_mem hflat.distinct hflat.names (List.mem_map.mpr ⟨field, hfield, rfl⟩)

/-- An entry reads back as its fields, with the strings and the numbers of the call. -/
theorem LogCall.readsBack (call : LogCall) (depth : Nat) :
    ReadsBack (depth + 1) (call.container : JsonValue δ) (call.text δ) := by
  rw [text, call.container_eq]
  exact call.flat.readsBack depth

theorem LogCall.text_ne_nil (call : LogCall) : call.text δ ≠ [] := by
  obtain ⟨-, ast, hast, -⟩ := LogCall.readsBack (δ := δ) call 0
  obtain ⟨c, more, heq, -⟩ := derives_head hast
  rw [heq]
  exact List.cons_ne_nil c more

/-- The ring holds the last calls: their texts are listed oldest first, the list reads
back as an array of objects with the fields that were logged, and of the copies exactly
the replaced ones were freed, each once. -/
theorem logEntries_last (aprFileOpen : Bytes → Option Bytes) (filename : Option Bytes)
    (nentries : Nat) (hentries : 0 < nentries) (manager : LogManager)
    (hopen : slayerServerLogOpen aprFileOpen filename nentries hentries = some manager)
    (calls : List LogCall) :
    let log := calls.foldl (LogCall.apply δ) manager
    let last := calls.drop (calls.length - nentries)
    last.length = min calls.length nentries ∧
      slayerServerLogGetEntries log =
        bytes "[" ++ ([ch ','].intercalate (last.map (LogCall.text δ)) ++ bytes "]") ∧
      (∃ objects : List (JsonValue δ), List.Forall₂ LogCall.Logged last objects ∧
        decodeText (slayerServerLogGetEntries log) = some (.array objects) ∧
        ∀ size : Int32, size.toInt = strlen (slayerServerLogGetEntries log) →
          decodeJson (slayerServerLogGetEntries log) size = some (.array objects)) ∧
      log.heap.blocks = calls.map (LogCall.text δ) ∧
      log.heap.freed = List.range (calls.length - nentries) ∧
      ∀ block, some block ∈ log.entries ↔
        calls.length - nentries ≤ block ∧ block < calls.length := by
  intro log last
  obtain ⟨hsize, hstart⟩ := keeps_open hopen
  obtain ⟨hsize', hkeeps⟩ := run_keeps δ hstart calls
  have hnentries : log.nentries = nentries := hsize'.trans hsize
  rw [List.nil_append] at hkeeps
  have hfree : ∀ text ∈ calls.map (LogCall.text δ), NulFree text := by
    intro text htext
    obtain ⟨call, -, rfl⟩ := List.mem_map.mp htext
    exact (LogCall.readsBack (δ := δ) call 0).free
  have hne : ∀ text ∈ calls.map (LogCall.text δ), text ≠ [] := by
    intro text htext
    obtain ⟨call, -, rfl⟩ := List.mem_map.mp htext
    exact call.text_ne_nil
  have htext : slayerServerLogGetEntries log =
      bytes "[" ++ ([ch ','].intercalate (last.map (LogCall.text δ)) ++ bytes "]") := by
    rw [hkeeps.getEntries hfree hne, List.length_map, hsize', hsize, ← List.map_drop]
  have hreads : ReadsBack jsonMaxDepth (.array (last.map LogCall.container) : JsonValue δ)
      (slayerServerLogGetEntries log) := by
    rw [htext]
    exact readsBack_intercalate last fun call _ => call.readsBack 62
  have hdecode := hreads.decodeText
  refine ⟨?_, htext, ⟨last.map LogCall.container, ?_, hdecode, ?_⟩, ?_, ?_, ?_⟩
  · rw [List.length_drop]
    omega
  · rw [List.forall₂_map_right_iff, List.forall₂_same]
    exact fun call _ => call.logged
  · intro size hsize
    rw [decodeJson_eq_decodeText hreads.free hsize, hdecode]
  · exact hkeeps.blocks_eq hfree
  · rw [hkeeps.freed, List.length_map, hsize', hsize]
  · intro block
    rw [hkeeps.retained, List.length_map, hsize', hsize]

/-- Three calls on two slots: the last one replaces the first, and the entry of the second
says what it was given. -/
theorem logEntries_last_full :
    ∃ manager, slayerServerLogOpen (fun _ => none) none 2 (by decide) = some manager ∧
      slayerServerLogGetEntries
          ([.error (bytes "::1") 5000000 (bytes "GET /a HTTP/1.0") (bytes "no"),
            .entry (bytes "::1") 6000000 (bytes "GET \"/\" HTTP/1.0") 200 12 34,
            .error (bytes "::1") 7000000 (bytes "GET /c HTTP/1.0") [10]].foldl
              (LogCall.apply Bytes) manager) =
        bytes "[\x7b\"bytes_sent\" : 12 , \"client_ip\" : \"::1\" , " ++
          bytes "\"request\" : \"GET \\\"\\/\\\" HTTP\\/1.0\" , " ++
          bytes "\"request_time\" : 6 , \"response_code\" : 200 , " ++
          bytes "\"time_toservice\" : 34\x7d," ++
          bytes "\x7b\"client_ip\" : \"::1\" , \"error\" : \"\\n\" , " ++
          bytes "\"request\" : \"GET \\/c HTTP\\/1.0\" , \"request_time\" : 7\x7d]" ∧
      ∃ (entries : Entries Bytes) (other : JsonValue Bytes), decodeText (slayerServerLogGetEntries
          ([.error (bytes "::1") 5000000 (bytes "GET /a HTTP/1.0") (bytes "no"),
            .entry (bytes "::1") 6000000 (bytes "GET \"/\" HTTP/1.0") 200 12 34,
            .error (bytes "::1") 7000000 (bytes "GET /c HTTP/1.0") [10]].foldl
              (LogCall.apply Bytes) manager)) = some (.array [.object entries, other]) ∧
        objectGet entries (bytes "request") = some (.string (bytes "GET \"/\" HTTP/1.0")) ∧
        objectGet entries (bytes "response_code") = some (.long 200) := by
  obtain ⟨-, hentries, ⟨objects, hlogged, hdecode, -⟩, -⟩ :=
    @logEntries_last Bytes _ (fun _ => none) none 2 (by decide) _ rfl
      [.error (bytes "::1") 5000000 (bytes "GET /a HTTP/1.0") (bytes "no"),
        .entry (bytes "::1") 6000000 (bytes "GET \"/\" HTTP/1.0") 200 12 34,
        .error (bytes "::1") 7000000 (bytes "GET /c HTTP/1.0") [10]]
  refine ⟨_, rfl, ?_, ?_⟩
  · rw [hentries]
    decide +kernel
  · obtain ⟨object, other, rfl⟩ : ∃ object other, objects = [object, other] :=
      List.length_eq_two.mp hlogged.length_eq.symm
    have hfirst : (LogCall.entry (bytes "::1") 6000000 (bytes "GET \"/\" HTTP/1.0") 200 12
        34).Logged object := (List.forall₂_cons.mp hlogged).1
    obtain ⟨entries, rfl, -, hfields⟩ := hfirst
    have hrequest : cstr (bytes "GET \"/\" HTTP/1.0") = bytes "GET \"/\" HTTP/1.0" := by decide
    refine ⟨entries, other, hdecode, ?_, ?_⟩
    · exact hfields ("request", .string (bytes "GET \"/\" HTTP/1.0")) (by
        simp [LogCall.fields, hrequest])
    · exact hfields ("response_code", .long 200) (by simp [LogCall.fields])

end DbSlayer.Server
