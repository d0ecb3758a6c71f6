import DbSlayer.Db.Statements

/-! # The keys of a reply

`json_skip_put` never replaces, so a key that is added twice is printed twice. Every
part of `dbexecute` adds keys that no part before it added, or looks first.
-/

namespace DbSlayer.Db

open Foundation Json

variable {δ : Type}

/-! ## Objects with distinct keys -/

/-- Every object in the value has entries, and no key of it twice. -/
inductive WellKeyed : JsonValue δ → Prop
  | null : WellKeyed .null
  | boolean {value : UInt8} : WellKeyed (.boolean value)
  | long {number : Int64} : WellKeyed (.long number)
  | longlong {number : Int64} : WellKeyed (.longlong number)
  | double {number : δ} : WellKeyed (.double number)
  | string {value : Bytes} : WellKeyed (.string value)
  | array {elements : List (JsonValue δ)} : (∀ element ∈ elements, WellKeyed element) →
      WellKeyed (.array elements)
  | object {entries : Entries δ} : entries ≠ [] → (entries.map Prod.fst).Nodup →
      (∀ entry ∈ entries, WellKeyed entry.2) → WellKeyed (.object entries)

/-- An object of members with distinct names is well keyed if its values are. -/
theorem wellKeyed_objectOf {members : List (Bytes × JsonValue δ)} (hne : members ≠ [])
    (hnodup : (members.map Prod.fst).Nodup) (hvalues : ∀ member ∈ members, WellKeyed member.2) :
    WellKeyed (.object (objectOf members)) := by
  have hperm := objectOf_perm members
  refine .object ?_ ((hperm.map Prod.fst).nodup_iff.mpr hnodup) ?_
  · intro hnil
    rw [hnil] at hperm
    exact hne hperm.nil_eq.symm
  · intro entry hentry
    exact hvalues entry (hperm.mem_iff.mp hentry)

/-- The array of all results may be `pending`: published, and not yet complete. -/
def Reply.WellKeyed (pending : Prop) : Reply δ → Prop
  | string _ => True
  | value json => Db.WellKeyed json
  | allResult => pending

/-- The key under which the request is echoed as it came. -/
def echoKey : String := "SLAYER_DEBUG_RETURN_INPUT"

/-- An object under construction: its keys are distinct and among the given ones. -/
structure Keyed (pending : Prop) (keys : List String) (out : Out δ) : Prop where
  sorted : Assoc.Sorted strcmp out
  nodup : (out.map Prod.fst).Nodup
  within : ∀ entry ∈ out, entry.1 ∈ keys.map bytes
  values : ∀ entry ∈ out, entry.2.WellKeyed pending ∨ entry.1 = bytes echoKey

section Keyed

variable {pending : Prop} {keys : List String} {out : Out δ} {key : String} {reply : Reply δ}

theorem keyed_nil : Keyed pending [] ([] : Out δ) :=
  ⟨List.Pairwise.nil, List.nodup_nil, by simp, by simp⟩

/-- Adding an entry keeps the others and adds it, wherever it goes. -/
theorem objectAdd_perm (out : Out δ) (key : String) (reply : Reply δ) :
    (objectAdd out key reply).Perm ((bytes key, reply) :: out) :=
  List.perm_orderedInsert _ _ _

theorem ne_nil_objectAdd (out : Out δ) (key : String) (reply : Reply δ) :
    objectAdd out key reply ≠ [] := by
  intro hnil
  have hperm := objectAdd_perm out key reply
  rw [hnil] at hperm
  exact List.cons_ne_nil _ _ hperm.nil_eq.symm

theorem wellKeyed_text (text : Option Bytes) :
    Reply.WellKeyed pending (.string text : Reply δ) := trivial

/-- A reply keyed by some names is keyed by more of them. -/
theorem Keyed.mono {more : List String} (hkeyed : Keyed pending keys out)
    (hmore : ∀ key ∈ keys, key ∈ more) : Keyed pending more out where
  sorted := hkeyed.sorted
  nodup := hkeyed.nodup
  within := by
    intro entry hentry
    obtain ⟨key, hkey, heq⟩ := List.mem_map.mp (hkeyed.within entry hentry)
    exact List.mem_map.mpr ⟨key, hmore key hkey, heq⟩
  values := hkeyed.values

/-- An entry under a key that the object does not have keeps the keys distinct, in the order
of `strcmp`. -/
theorem Keyed.objectAdd (hkeyed : Keyed pending keys out) (hnew : bytes key ∉ out.map Prod.fst)
    (hreply : reply.WellKeyed pending ∨ key = echoKey) :
    Keyed pending (key :: keys) (objectAdd out key reply) where
  sorted := Assoc.sorted_put strcmp_order hkeyed.sorted
  nodup := by
    rw [((objectAdd_perm out key reply).map Prod.fst).nodup_iff, List.map_cons]
    exact List.nodup_cons.mpr ⟨hnew, hkeyed.nodup⟩
  within := by
    intro entry hentry
    rcases List.mem_cons.mp ((objectAdd_perm out key reply).mem_iff.mp hentry) with rfl | hold
    · exact List.mem_cons_self
    · exact List.mem_cons_of_mem _ (hkeyed.within entry hold)
  values := by
    intro entry hentry
    rcases List.mem_cons.mp ((objectAdd_perm out key reply).mem_iff.mp hentry) with rfl | hold
    · exact hreply.imp_right (congrArg bytes)
    · exact hkeyed.values entry hold

/-- A name that is not among the keys is in no entry. -/
theorem Keyed.not_mem (hkeyed : Keyed pending keys out) (hnew : bytes key ∉ keys.map bytes) :
    bytes key ∉ out.map Prod.fst := by
  intro hmem
  obtain ⟨entry, hentry, heq⟩ := List.mem_map.mp hmem
  exact hnew (heq ▸ hkeyed.within entry hentry)

/-- The same under a key that is not among the ones that may be there, whichever of these are
there in fact. -/
theorem Keyed.add (hkeyed : Keyed pending keys out) (key : String)
    (hnew : bytes key ∉ keys.map bytes) (hreply : reply.WellKeyed pending ∨ key = echoKey) :
    Keyed pending (key :: keys) (DbSlayer.Db.objectAdd out key reply) :=
  hkeyed.objectAdd (hkeyed.not_mem hnew) hreply

/-- In a sorted table, a lookup that finds nothing means that the key is absent. -/
theorem Keyed.not_mem_of_outHas (hkeyed : Keyed pending keys out) (hhas : outHas out key = false) :
    bytes key ∉ out.map Prod.fst := by
  intro hmem
  obtain ⟨entry, hentry, heq⟩ := List.mem_map.mp hmem
  have hnone : Assoc.get strcmp (bytes key) out = none := by simpa [outHas] using hhas
  have hself := strcmp_order.self (bytes key)
  have hempty : Assoc.stackOf strcmp (bytes key) out = [] := by
    rw [Assoc.stackOf_split (bytes key) (bytes key) out,
      Assoc.stackOf_takeWhile strcmp_order hself,
      Assoc.stackOf_lowerBound_of_get_none strcmp_order hself hkeyed.sorted hnone]
    rfl
  have hstacked : entry.2 ∈ Assoc.stackOf strcmp (bytes key) out := by
    refine List.mem_map.mpr ⟨entry, List.mem_filter.mpr ⟨hentry, ?_⟩, rfl⟩
    rw [heq]
    exact decide_eq_true hself
  simp [hempty] at hstacked

/-- What happens to the values leaves the keys alone. -/
theorem Keyed.map (hkeyed : Keyed pending keys out) {f : Reply δ → Reply δ}
    {resolved : Prop}
    (hf : ∀ reply : Reply δ, reply.WellKeyed pending → (f reply).WellKeyed resolved) :
    Keyed resolved keys (out.map (Prod.map id f)) where
  sorted := List.pairwise_map.mpr hkeyed.sorted
  nodup := by
    rw [List.map_map]
    exact hkeyed.nodup
  within := by
    intro entry hentry
    obtain ⟨old, hold, rfl⟩ := List.mem_map.mp hentry
    exact hkeyed.within old hold
  values := by
    intro entry hentry
    obtain ⟨old, hold, rfl⟩ := List.mem_map.mp hentry
    exact (hkeyed.values old hold).imp_left (hf old.2)

theorem Keyed.withServer (hkeyed : Keyed pending keys out) (dbserverName : Bytes) :
    Keyed pending ("SERVER" :: keys) (withServer out dbserverName) := by
  unfold DbSlayer.Db.withServer
  split
  next => exact hkeyed.mono fun _ hkey => List.mem_cons_of_mem _ hkey
  next hhas =>
    exact hkeyed.objectAdd (hkeyed.not_mem_of_outHas (by simpa using hhas)) (.inl trivial)

end Keyed

/-! ## The parts of a reply -/

section Parts

variable {pending : Prop} {mysql : Mysql} {out : Out δ} {db : Option Token} {dbserverName : Bytes}
  {injson : JsonValue δ} {w : World}

/-- The keys of a reply before an error is reported. -/
def resultKeys (published : Bool) : List String := if published then ["RESULT"] else []

/-- An error report adds keys of its own, none of which was there before. -/
theorem keyed_dbReportError {published : Bool} (hkeyed : Keyed pending (resultKeys published) out) :
    Keyed pending (errorKeys ++ resultKeys published)
      (result (dbReportError mysql out db dbserverName injson) w) := by
  have hnew : outHas out "MYSQL_ERROR" = false := by
    rw [← Bool.not_eq_true, outHas, Option.isSome_iff_exists]
    rintro ⟨reply, hget⟩
    obtain ⟨front, found, back, rfl, hfound, -⟩ := Assoc.exists_split_of_get_some hget
    have hdiffer : ∀ key ∈ (resultKeys published).map bytes,
        strcmp (bytes "MYSQL_ERROR") key ≠ 0 := by
      cases published <;> decide
    exact hdiffer found (hkeyed.within (found, reply) (by simp)) hfound
  rw [dbReportError_result hnew, errorReport]
  have hserver : Keyed pending
      ("SERVER" :: "MYSQL_ERRNO" :: "MYSQL_ERROR" :: "SUCCESS" :: resultKeys published)
      (withServer (objectAdd (objectAdd (objectAdd out "SUCCESS" (.value (.boolean 0)))
        "MYSQL_ERROR" (.string (some (w.connection db).error.text)))
        "MYSQL_ERRNO" (.value (.long (Int64.ofNat (w.connection db).error.errno))))
        dbserverName) := by
    refine Keyed.withServer ?_ dbserverName
    refine Keyed.add ?_ "MYSQL_ERRNO" (by cases published <;> decide) (.inl WellKeyed.long)
    refine Keyed.add ?_ "MYSQL_ERROR" (by cases published <;> decide) (.inl (wellKeyed_text _))
    exact hkeyed.add "SUCCESS" (by cases published <;> decide) (.inl WellKeyed.boolean)
  dsimp only
  split
  · refine Keyed.mono (Keyed.add (Keyed.add hserver "ROLLBACK_ON_ERROR" ?_ (.inl ?_))
      "ROLLBACK_ON_ERROR_SUCCESS" ?_ (.inl ?_)) ?_
    · cases published <;> decide
    · exact WellKeyed.boolean
    · cases published <;> decide
    · exact WellKeyed.boolean
    · cases published <;> decide
  · exact hserver.mono (by cases published <;> decide)

/-- An answer goes under the key of its flag, which is new. -/
theorem keyed_answerFlag {keys : List String} {answer : Client (Reply δ)}
    (hkeyed : Keyed pending keys out) (key : String) (hnew : bytes key ∉ keys.map bytes)
    (hanswer : ∀ w, (result answer w).WellKeyed pending ∨ key = echoKey) :
    Keyed pending (key :: keys) (result (answerFlag injson key answer out) w) := by
  rw [answerFlag, result_ite]
  split
  · exact hkeyed.add key hnew (hanswer w)
  · exact hkeyed.mono fun _ hkey => List.mem_cons_of_mem _ hkey

theorem wellKeyed_slayerHelp : WellKeyed (slayerHelp : JsonValue δ) := by
  refine wellKeyed_objectOf (by simp) ?_ ?_
  · simp only [List.map_cons, List.map_nil]
    decide
  · intro member hmember
    simp only [List.mem_cons, List.not_mem_nil, or_false] at hmember
    rcases hmember with rfl | rfl | rfl | rfl | rfl | rfl | rfl | rfl | rfl <;> exact .string

/-- Each introspection flag adds its own key at most, and these are none of the keys that stand
there already. -/
theorem keyed_dbprocessMetadata (hkeyed : Keyed pending (errorKeys ++ resultKeys true) out) :
    Keyed pending (metadataKeys.reverse ++ (errorKeys ++ resultKeys true))
      (result (dbprocessMetadata mysql db injson out dbserverName) w) := by
  simp only [dbprocessMetadata, result_bind]
  refine keyed_answerFlag ?_ "SLAYER_HELP" (by decide) fun _ => .inl wellKeyed_slayerHelp
  refine keyed_answerFlag ?_ "SERVER_NAME" (by decide) fun _ => .inl (wellKeyed_text _)
  refine keyed_answerFlag ?_ "SLAYER_DEBUG_RETURN_INPUT" (by decide) fun _ => .inr rfl
  refine keyed_answerFlag ?_ "CLIENT_VERSION" (by decide) fun _ => .inl WellKeyed.long
  refine keyed_answerFlag ?_ "SERVER_VERSION" (by decide) fun _ => .inl WellKeyed.long
  refine keyed_answerFlag ?_ "HOST_INFO" (by decide) fun _ => .inl (wellKeyed_text _)
  refine keyed_answerFlag ?_ "CLIENT_INFO" (by decide) fun _ => .inl (wellKeyed_text _)
  exact keyed_answerFlag hkeyed "STAT" (by decide) fun _ => .inl (wellKeyed_text _)

/-- The keys that a reply may have. -/
def replyKeys : List String := "ERROR" :: (metadataKeys.reverse ++ (errorKeys ++ resultKeys true))

/-- The object is never empty: with nothing else in it, it says so. -/
theorem keyed_finishReply (hkeyed : Keyed pending (errorKeys ++ resultKeys true) out) :
    Keyed pending replyKeys (result (finishReply mysql db dbserverName injson out) w) ∧
      result (finishReply mysql db dbserverName injson out) w ≠ [] := by
  have hmetadata := @keyed_dbprocessMetadata δ pending mysql out db dbserverName injson w hkeyed
  simp only [finishReply, result_bind, result_pure]
  generalize result (dbprocessMetadata mysql db injson out dbserverName) w = answered at hmetadata ⊢
  split
  next =>
    refine ⟨hmetadata.add "ERROR" (by decide) (.inl (wellKeyed_text _)), ?_⟩
    exact ne_nil_objectAdd answered _ _
  next hcount =>
    refine ⟨hmetadata.mono fun _ hkey => List.mem_cons_of_mem _ hkey, ?_⟩
    rintro rfl
    exact hcount rfl

/-- The reply to a request that names no server of the handle has distinct keys, and it is not
empty. -/
theorem keyed_refused {handle : DbHandle} (hselect : selectServer handle injson = .refused out) :
    ∃ keys, Keyed pending keys out ∧ out ≠ [] := by
  unfold selectServer at hselect
  split at hselect
  · cases hselect
    exact ⟨_, keyed_nil.add "ERROR" (by decide) (.inl (wellKeyed_text _)), ne_nil_objectAdd _ _ _⟩
  · split at hselect
    · cases hselect
      refine ⟨_, Keyed.add (keyed_nil.add "ERROR" (by decide) (.inl (wellKeyed_text _))) "SERVER"
        (by decide) (.inl WellKeyed.string), ne_nil_objectAdd _ _ _⟩
    · cases hselect
  · cases hselect
    exact ⟨_, keyed_nil.add "ERROR" (by decide) (.inl (wellKeyed_text _)), ne_nil_objectAdd _ _ _⟩
  · cases hselect

end Parts

/-! ## The results -/

theorem wellKeyed_strings {α : Type} (items : List α) (text : α → Bytes) :
    WellKeyed (.array (items.map fun item => .string (text item)) : JsonValue δ) := by
  refine .array fun element helement => ?_
  obtain ⟨item, -, rfl⟩ := List.mem_map.mp helement
  exact .string

theorem wellKeyed_cellOr {create : Bytes → JsonValue δ} (hcreate : ∀ text, WellKeyed (create text))
    {cell : Option Bytes} {value : JsonValue δ} (hvalue : value ∈ [cellOr create cell]) :
    WellKeyed value := by
  rw [List.mem_singleton.mp hvalue]
  cases cell with
  | none => exact .null
  | some text => exact hcreate text

section Results

variable [CDouble δ] {mysql : Mysql} {out : Out δ} {db : Option Token} {dbserverName : Bytes}
  {injson : JsonValue δ} {results next : Results δ} {w : World}

/-- A cell holds no object, so no key can repeat in it. -/
theorem wellKeyed_rowCell (field : Field) (cell : Option Bytes) :
    ∀ value ∈ (rowCell field cell : List (JsonValue δ)), WellKeyed value := by
  have hnull : ∀ value ∈ [(.null : JsonValue δ)], WellKeyed value := by
    intro value hvalue
    rw [List.mem_singleton.mp hvalue]
    exact .null
  have hstring : ∀ value ∈ [cellOr (jsonStringCreate : Bytes → JsonValue δ) cell],
      WellKeyed value := fun _ hvalue => wellKeyed_cellOr (fun _ => .string) hvalue
  unfold rowCell
  split
  any_goals exact fun _ hvalue => wellKeyed_cellOr (fun _ => .long) hvalue
  any_goals exact fun _ hvalue => wellKeyed_cellOr (fun _ => .longlong) hvalue
  any_goals exact fun _ hvalue => wellKeyed_cellOr (fun _ => .double) hvalue
  any_goals exact hstring
  any_goals exact hnull
  any_goals exact fun _ hvalue => absurd hvalue List.not_mem_nil
  all_goals
    split
    · exact hnull
    · exact hstring

/-- A table is an object with three keys, and its rows are arrays. -/
theorem wellKeyed_dbresult2json (set : ResultSet) :
    WellKeyed (dbresult2json set : JsonValue δ) := by
  refine wellKeyed_objectOf (by simp) ?_ ?_
  · simp only [List.map_cons, List.map_nil]
    decide
  · intro member hmember
    simp only [List.mem_cons, List.not_mem_nil, or_false] at hmember
    rcases hmember with rfl | rfl | rfl
    · exact wellKeyed_strings set.fields _
    · exact wellKeyed_strings set.fields _
    · refine .array fun row hrow => ?_
      obtain ⟨cells, -, rfl⟩ := List.mem_map.mp hrow
      refine .array fun value hvalue => ?_
      obtain ⟨pair, -, hpair⟩ := List.mem_flatMap.mp hvalue
      exact wellKeyed_rowCell pair.1 pair.2 value hpair

omit [CDouble δ] in
theorem wellKeyed_affectedObject (count insertId : UInt64) :
    WellKeyed (affectedObject count insertId : JsonValue δ) := by
  refine wellKeyed_objectOf (by simp) ?_ ?_
  · simp only [List.map_cons, List.map_nil]
    decide
  · intro member hmember
    simp only [List.mem_cons, List.not_mem_nil, or_false] at hmember
    rcases hmember with rfl | rfl | rfl
    · exact .boolean
    · exact .long
    · exact .long

/-- A statement that succeeds makes its object the only result, or puts it behind the array
that the earlier ones have started. -/
theorem processStatement_some (hnext : result (processStatement db results) w = some next) :
    ∃ object, WellKeyed object ∧
      (next = ⟨some object, results.promote.all.map (· ++ [object])⟩ ∨
        results.sql = none ∧ next = { results with sql := some object } ∨
        next = { results.promote with all := results.promote.all.map (· ++ [object]) }) := by
  rw [processStatement, result_bind] at hnext
  generalize after (mysqlStoreResult db) w = stored at hnext
  cases hset : result (mysqlStoreResult db) w with
  | some set =>
      refine ⟨dbresult2json set, wellKeyed_dbresult2json set, .inr ?_⟩
      rw [hset, dbprocessResult, result_ite] at hnext
      split at hnext
      next hnone => exact .inl ⟨Option.isNone_iff_eq_none.mp hnone, (Option.some.inj hnext).symm⟩
      next => exact .inr (Option.some.inj hnext).symm
  | none =>
      rw [hset, dbprocessResult, result_bind, result_ite] at hnext
      split at hnext
      next => cases hnext
      next =>
        refine ⟨_, ?_, .inl (Option.some.inj hnext).symm⟩
        exact wellKeyed_affectedObject _ _

/-- The results have distinct keys throughout. -/
structure Results.WellKeyed (results : Results δ) : Prop where
  sql : ∀ object, results.sql = some object → Db.WellKeyed object
  all : ∀ objects, results.all = some objects → ∀ object ∈ objects, Db.WellKeyed object

omit [CDouble δ] in
theorem Results.WellKeyed.promote (hkeyed : results.WellKeyed) : results.promote.WellKeyed := by
  unfold Results.promote
  split
  next first hsql hall =>
    refine ⟨hkeyed.sql, ?_⟩
    rintro objects ⟨⟩ object hobject
    rw [List.mem_singleton.mp hobject]
    exact hkeyed.sql first hsql
  next => exact hkeyed

omit [CDouble δ] in
theorem Results.WellKeyed.append (hkeyed : results.WellKeyed) {object : JsonValue δ}
    (hobject : Db.WellKeyed object) :
    ∀ objects, results.all.map (· ++ [object]) = some objects →
      ∀ element ∈ objects, Db.WellKeyed element := by
  intro objects hobjects element helement
  obtain ⟨before, hbefore, rfl⟩ := Option.map_eq_some_iff.mp hobjects
  rcases List.mem_append.mp helement with hold | hlast
  · exact hkeyed.all before hbefore element hold
  · rw [List.mem_singleton.mp hlast]
    exact hobject

omit [CDouble δ] in
theorem Results.isSome_promote (hall : results.all.isSome = true) :
    results.promote.all.isSome = true := by
  unfold Results.promote
  split
  next => rfl
  next => exact hall

/-- After a statement the results have distinct keys in all their objects, and an array stays
one. -/
theorem wellKeyed_processStatement (hkeyed : results.WellKeyed)
    (hnext : result (processStatement db results) w = some next) :
    next.WellKeyed ∧ (results.all.isSome = true → next.all.isSome = true) := by
  obtain ⟨object, hobject, rfl | ⟨-, rfl⟩ | rfl⟩ := processStatement_some hnext
  · refine ⟨⟨?_, hkeyed.promote.append hobject⟩, fun hall => ?_⟩
    · rintro _ ⟨⟩
      exact hobject
    · rw [Option.isSome_map]
      exact Results.isSome_promote hall
  · refine ⟨⟨?_, hkeyed.all⟩, id⟩
    rintro _ ⟨⟩
    exact hobject
  · refine ⟨⟨hkeyed.promote.sql, hkeyed.promote.append hobject⟩, fun hall => ?_⟩
    rw [Option.isSome_map]
    exact Results.isSome_promote hall

/-- The object and the accumulators of the loop. -/
structure LoopKeyed (keys : List String) (out : Out δ) (results : Results δ) : Prop where
  keyed : Keyed True (keys ++ resultKeys results.all.isSome) out
  accumulated : results.WellKeyed

/-- A statement that succeeds publishes the array at most once. -/
theorem loopKeyed_statement (hinv : LoopKeyed [] out results)
    (hnext : result (processStatement db results) w = some next) :
    LoopKeyed [] (if results.all.isNone && next.all.isSome then
      objectAdd out "RESULT" .allResult else out) next := by
  obtain ⟨haccumulated, hstays⟩ := wellKeyed_processStatement hinv.accumulated hnext
  refine ⟨?_, haccumulated⟩
  have hkeyed := hinv.keyed
  cases hbefore : results.all.isSome with
  | true =>
      rw [hbefore] at hkeyed
      simpa [hstays hbefore, ← Option.not_isSome, hbefore] using hkeyed
  | false =>
      rw [hbefore] at hkeyed
      cases hafter : next.all.isSome with
      | true =>
          have hpublished : Keyed True (resultKeys true) (objectAdd out "RESULT" .allResult) :=
            Keyed.add hkeyed "RESULT" (by decide) (.inl trivial)
          simpa [← Option.not_isSome, hbefore] using hpublished
      | false => simpa using hkeyed

/-- The loop keeps the keys apart. The induction is on its fuel, and a statement that fails ends
it with the keys of an error. -/
theorem loopKeyed_resultLoop (fuel : Nat) :
    LoopKeyed errorKeys
      (result (resultLoop mysql db dbserverName injson fuel [] ⟨none, none⟩) w).1
      (result (resultLoop mysql db dbserverName injson fuel [] ⟨none, none⟩) w).2 := by
  have hstart : LoopKeyed [] ([] : Out δ) ⟨none, none⟩ := ⟨keyed_nil, ⟨by simp, by simp⟩⟩
  refine resultLoop_invariant (fun _ _ _ _ => loopKeyed_statement) ?_ ?_ fuel ⟨none, none⟩ hstart w
  · intro out results w hinv
    exact ⟨keyed_dbReportError hinv.keyed, hinv.accumulated⟩
  · intro out results hinv
    exact ⟨hinv.keyed.mono fun _ hkey => List.mem_append_right _ hkey, hinv.accumulated⟩

omit [CDouble δ] in
/-- A single result is published behind the loop, under a key that is still free. -/
theorem keyed_completed {outcome : Out δ × Results δ}
    (hloop : LoopKeyed errorKeys outcome.1 outcome.2) :
    Keyed True (errorKeys ++ resultKeys true) (completed outcome dbserverName) := by
  have hkeyed := hloop.keyed
  have hserver : ∀ out : Out δ, Keyed True (errorKeys ++ resultKeys true) out →
      Keyed True (errorKeys ++ resultKeys true) (withServer out dbserverName) :=
    fun out hout => (hout.withServer dbserverName).mono (by decide)
  unfold completed
  apply hserver
  split
  next lone hsql hall =>
    rw [hall, Option.isSome_none] at hkeyed
    refine Keyed.mono (hkeyed.add "RESULT" (by decide) ?_) (by decide)
    exact .inl (hloop.accumulated.sql lone hsql)
  next =>
    apply hkeyed.mono
    cases outcome.2.all.isSome <;> decide

/-- The object behind the loop has distinct keys, with the array in the place that was
published for it. -/
theorem keyed_publishResults :
    Keyed False (errorKeys ++ resultKeys true)
      (result (publishResults mysql db dbserverName injson) w) := by
  have hloop := @loopKeyed_resultLoop δ _ mysql db dbserverName injson w
    ((w.connection db).rest.length + 1)
  rw [publishResults_eq]
  refine (keyed_completed hloop).map ?_
  rintro reply hreply
  cases reply with
  | string text => exact trivial
  | value json => exact hreply
  | allResult =>
      refine WellKeyed.array fun object hobject => ?_
      cases hall : (result (resultLoop mysql db dbserverName injson
        ((w.connection db).rest.length + 1) [] ⟨none, none⟩) w).2.all with
      | none => simp [hall] at hobject
      | some objects =>
          rw [hall] at hobject
          exact hloop.accumulated.all objects hall object hobject

/-- The keys of a reply are distinct, and there are some. -/
theorem keyed_dbexecute (mysql : Mysql) (timeout : Nat) (handle : DbHandle)
    (injson : JsonValue δ) (w : World) :
    ∃ keys, Keyed False keys (result (dbexecute mysql timeout handle injson) w).2 ∧
      (result (dbexecute mysql timeout handle injson) w).2 ≠ [] := by
  unfold dbexecute
  split
  next out hselect => exact keyed_refused hselect
  next db dbserverName hselect =>
    split
    next => exact ⟨replyKeys, keyed_finishReply (keyed_nil.mono (by simp))⟩
    next sql hsql =>
      simp only [result_bind, result_ite]
      split
      next => exact ⟨replyKeys, keyed_finishReply keyed_publishResults⟩
      next =>
        refine ⟨errorKeys ++ resultKeys false, keyed_dbReportError keyed_nil, ?_⟩
        rw [result_pure, dbReportError_result rfl]
        intro hnil
        have hreport := (errorEntries_errorReport _ _ _ _ _).success.symm.trans
          (congrArg (outGet · "SUCCESS") hnil)
        cases hreport

/-- A reply has no key twice, is never empty, and holds no object with a key twice but the
request that it echoes. -/
theorem dbexecute_keys_nodup (mysql : Mysql) (timeout : Nat) (handle : DbHandle)
    (injson : JsonValue δ) (w : World) :
    ((result (dbexecute mysql timeout handle injson) w).2.map Prod.fst).Nodup ∧
      (result (dbexecute mysql timeout handle injson) w).2 ≠ [] ∧
      ∀ entry ∈ (result (dbexecute mysql timeout handle injson) w).2,
        entry.2.WellKeyed False ∨ entry.1 = bytes echoKey := by
  obtain ⟨keys, hkeyed, hne⟩ := keyed_dbexecute mysql timeout handle injson w
  exact ⟨hkeyed.nodup, hne, hkeyed.values⟩

end Results

end DbSlayer.Db
