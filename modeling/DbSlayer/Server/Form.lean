import DbSlayer.Http.Qstring

/-! # The statement of a form

What `dbjson_handler` makes of the query of a `/dbform` request. The nodes of the
parsed form are copied in level-0 order into the table of a new object, which puts
every node in front of the ones with its name.
-/

namespace DbSlayer.Server

open DbSlayer.Http DbSlayer.Json DbSlayer.Skip Foundation

variable {δ : Type}

/-- The loop over the nodes of the form. -/
def formObject (form : JsonSkipHead Bytes Bytes) : Option (Entries δ) :=
  if form.nodeCount ≠ 0 then do
    let nodes ← levelEntries form
    let members ← nodes.mapM fun node => node.2.map fun value => (node.1, jsonStringCreate value)
    return objectOf members
  else some []

/-- The form of a `/dbform` request and the members of its statement. -/
def dbformStatement (query : Option Bytes) (draws : Nat → Nat) :
    Option (JsonSkipHead Bytes Bytes × Entries δ) := do
  let form ← parseQstring query draws
  let stmt ← formObject form
  return (form, stmt)

/-- The first and the last parameter of every name have the same C string for a value. -/
def RepeatsAgree (pairs : List (Bytes × Bytes)) : Prop :=
  ∀ name, (pairs.find? fun pair => pair.1 = name).map (fun pair => cstr pair.2) =
    (pairs.reverse.find? fun pair => pair.1 = name).map fun pair => cstr pair.2

/-- The loop over the form fails for no entry that has a value. -/
theorem mapM_some_values (entries : List (Bytes × Bytes)) :
    ((entries.map (Prod.map id some)).mapM fun node : Bytes × Option Bytes =>
      node.2.map fun value => (node.1, (jsonStringCreate value : JsonValue δ))) =
        some (entries.map (Prod.map id jsonStringCreate)) := by
  induction entries with
  | nil => rfl
  | cons entry rest ih =>
      simp only [List.map_cons, List.mapM_cons, ih]
      rfl

/-- The object of a form has the entries of the form, in reverse. -/
theorem formObject_eq {form : JsonSkipHead Bytes Bytes} {entries : List (Bytes × Bytes)}
    (hentries : HasEntries form entries) (hfew : entries.length < 2 ^ 32) :
    formObject (δ := δ) form =
      some ((Assoc.ofPairs strcmp entries).map (Prod.map id jsonStringCreate)) := by
  have hcount : form.nodeCount = entries.length := by
    rw [hentries.count, Nat.mod_eq_of_lt hfew]
  rw [← Assoc.ofPairs_map]
  unfold formObject
  by_cases hempty : form.nodeCount ≠ 0
  · rw [if_pos hempty, hentries.level]
    simp only [Option.bind_eq_bind, Option.bind_some, mapM_some_values]
    rfl
  · have hnil : entries = [] := by
      rw [← List.length_eq_zero_iff, ← hcount]
      exact not_not.mp hempty
    rw [if_neg hempty, hnil]
    rfl

/-- The statement of `/dbform` is the object that was built from the form, whatever the form
contains. -/
theorem dbformStatement_eq {query : Option Bytes} {draws : Nat → Nat}
    {form : JsonSkipHead Bytes Bytes} {stmt : Entries δ}
    (hform : parseQstring query draws = some form) (hobject : formObject form = some stmt) :
    dbformStatement query draws = some (form, stmt) := by
  rw [dbformStatement, hform, Option.bind_eq_bind, Option.bind_some, hobject]
  rfl

/-- Among C strings, comparing equal is being equal. -/
theorem find?_strcmp {pairs : List (Bytes × Bytes)} (hpairs : ∀ pair ∈ pairs, NulFree pair.1)
    {name : Bytes} (hname : NulFree name) :
    (pairs.find? fun pair => strcmp name pair.1 = 0) = pairs.find? fun pair => pair.1 = name := by
  rw [← List.head?_filter, ← List.head?_filter]
  congr 1
  refine List.filter_congr ?_
  intro pair hpair
  rw [decide_eq_decide, strcmp_eq_zero_iff hname (hpairs pair hpair), eq_comm]

/-- No parameter has a name with a zero byte in it. -/
theorem find?_of_not_nulFree {pairs : List (Bytes × Bytes)}
    (hpairs : ∀ pair ∈ pairs, NulFree pair.1) {name : Bytes} (hname : ¬ NulFree name) :
    (pairs.find? fun pair => pair.1 = name) = none := by
  rw [List.find?_eq_none]
  intro pair hpair heq
  exact hname (of_decide_eq_true heq ▸ hpairs pair hpair)

/-- A lookup in the statement is the lookup in the form, for every key, exactly when
parameters that repeat a name agree. -/
theorem dbformStatement_agrees_iff (query : Option Bytes)
    (hsize : (query.getD []).length < 2 ^ 32) (draws : Nat → Nat) :
    ∃ form stmt, dbformStatement (δ := δ) query draws = some (form, stmt) ∧
      ((∀ key, NulFree key → some (objectGet stmt key) =
          (jsonSkipGet strcmp form key).map (Option.map jsonStringCreate)) ↔
        RepeatsAgree (parameters (cstr (query.getD [])))) := by
  obtain ⟨form, hform, hentries⟩ := parseQstring_hasEntries query draws
  have hlength := (@Assoc.ofPairs_perm _ _ strcmp (qstringPairs query)).length_eq
  have hfew := length_qstringPairs_le query
  have hcut : strlen (query.getD []) ≤ (query.getD []).length :=
    (List.takeWhile_prefix _).length_le
  have hobject := formObject_eq (δ := δ) hentries (by omega)
  refine ⟨form, _, dbformStatement_eq hform hobject, ?_⟩
  have hnames : ∀ pair ∈ qstringPairs query, NulFree pair.1 :=
    fun _ hpair => nulFree_of_mem_qstringPairs hpair
  rw [← qstringPairs_eq]
  generalize qstringPairs query = pairs at hentries hnames ⊢
  have hnames' : ∀ pair ∈ pairs.reverse, NulFree pair.1 := by simpa using hnames
  -- the copy answers with the first parameter of a name, the form with the last one
  have hfirst : ∀ key, NulFree key → objectGet (List.map (Prod.map id jsonStringCreate)
      (Assoc.ofPairs strcmp (Assoc.ofPairs strcmp pairs))) key =
        (pairs.find? fun pair => pair.1 = key).map fun pair =>
          (.string (cstr pair.2) : JsonValue δ) := by
    intro key hkey
    rw [objectGet, Assoc.get_map, Assoc.get_ofPairs_ofPairs strcmp_order, find?_strcmp hnames hkey,
      Option.map_map]
    rfl
  have hlast : ∀ key, NulFree key →
      (jsonSkipGet strcmp form key).map (Option.map (jsonStringCreate (δ := δ))) =
        some ((pairs.reverse.find? fun pair => pair.1 = key).map fun pair =>
          .string (cstr pair.2)) := by
    intro key hkey
    rw [hentries.get, Assoc.get_ofPairs strcmp_order, find?_strcmp hnames' hkey, Option.map_some,
      Option.map_map]
    rfl
  have hinjective : Function.Injective (JsonValue.string : Bytes → JsonValue δ) :=
    fun _ _ heq => JsonValue.string.inj heq
  constructor
  · intro hsame name
    by_cases hname : NulFree name
    · have heq := hsame name hname
      rw [hfirst name hname, hlast name hname, Option.some.injEq] at heq
      refine Option.map_injective hinjective ?_
      rw [Option.map_map, Option.map_map]
      exact heq
    · rw [find?_of_not_nulFree hnames hname, find?_of_not_nulFree hnames' hname]
  · intro hagree key hkey
    have heq := congrArg (Option.map (JsonValue.string (δ := δ))) (hagree key)
    rw [Option.map_map, Option.map_map] at heq
    rw [hfirst key hkey, hlast key hkey, Option.some.injEq]
    exact heq

theorem dbformStatement_agrees_single :
    ∃ form stmt, dbformStatement (δ := Bytes) (some (bytes "SQL=a&SERVER=b")) (fun _ => 0) =
      some (form, stmt) ∧ ∀ key, NulFree key → some (objectGet stmt key) =
        (jsonSkipGet strcmp form key).map (Option.map jsonStringCreate) := by
  have hpairs : parameters (bytes "SQL=a&SERVER=b") =
      [(bytes "SQL", bytes "a"), (bytes "SERVER", bytes "b")] := by decide +kernel
  obtain ⟨form, stmt, hstatement, hiff⟩ := dbformStatement_agrees_iff (δ := Bytes)
    (some (bytes "SQL=a&SERVER=b")) (by decide) fun _ => 0
  refine ⟨form, stmt, hstatement, hiff.mpr ?_⟩
  rw [Option.getD_some, cstr_of_nulFree (by decide +kernel), hpairs]
  intro name
  by_cases hsql : bytes "SQL" = name
  · subst hsql
    rfl
  · by_cases hserver : bytes "SERVER" = name
    · subst hserver
      rfl
    · simp [hsql, hserver]

/-- The statement that runs is the first one, the form answers with the last one. -/
theorem dbformStatement_picks_first :
    ∃ form stmt, dbformStatement (δ := Bytes) (some (bytes "SQL=a&SQL=b")) (fun _ => 0) =
      some (form, stmt) ∧ jsonSkipGet strcmp form (bytes "SQL") = some (some (bytes "b")) ∧
        objectGet stmt (bytes "SQL") = some (.string (bytes "a")) ∧
        ¬ ∀ key, NulFree key → some (objectGet stmt key) =
          (jsonSkipGet strcmp form key).map (Option.map jsonStringCreate) := by
  obtain ⟨form, hform, hentries⟩ :=
    parseQstring_hasEntries (some (bytes "SQL=a&SQL=b")) fun _ => 0
  have hpairs : qstringPairs (some (bytes "SQL=a&SQL=b")) =
      [(bytes "SQL", bytes "a"), (bytes "SQL", bytes "b")] := by decide +kernel
  rw [hpairs] at hentries
  have hobject := formObject_eq (δ := Bytes) hentries (by decide)
  have hlast : jsonSkipGet strcmp form (bytes "SQL") = some (some (bytes "b")) := by
    rw [hentries.get]
    rfl
  refine ⟨form, _, dbformStatement_eq hform hobject, hlast, rfl, ?_⟩
  intro hagrees
  have hsame := hagrees (bytes "SQL") (by decide)
  rw [hlast] at hsame
  have hvalue : bytes "a" = bytes "b" :=
    JsonValue.string.inj (Option.some.inj (Option.some.inj hsame))
  exact absurd hvalue (by decide)

end DbSlayer.Server
