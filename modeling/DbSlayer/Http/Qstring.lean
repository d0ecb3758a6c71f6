import DbSlayer.CLib.Strtok
import DbSlayer.Http.Urldecode
import DbSlayer.Skip.Objects

/-! # Query strings of forms

`parse_qstring` cuts a copy of the query in two passes: the first one at `&`, the
second one at the first `=` of every parameter, whose rest is the value. Both write
their zero bytes into the one copy.
-/

namespace DbSlayer.Http

open DbSlayer.Json DbSlayer.Skip Foundation

/-! ## The two passes -/

/-- The first pass over a copy of the query: the copy and `params`. -/
def qstringParams (qstring : Bytes) : Bytes × List Nat :=
  let q := cstr qstring
  strtokAll (ch '&') (q.length + 1) q 0

/-- The second pass: what is put into the table, in order. A null name comes with a
null value. -/
def qstringPuts : Bytes → List Nat → List (Bytes × Bytes)
  | _, [] => []
  | q, x :: params =>
      match aprStrtok (ch '=') q x with
      | none => qstringPuts q params
      | some cut =>
          (cstr (cut.buffer.drop cut.token), urldecode (some (cut.buffer.drop cut.last))) ::
            qstringPuts cut.buffer params

/-- The names and values that are put for a query. -/
def qstringPairs (qstring : Option Bytes) : List (Bytes × Bytes) :=
  match qstring with
  | none => []
  | some qstring =>
      let (q, params) := qstringParams qstring
      qstringPuts q params

/-- `parse_qstring`, given what `rand()` returns for the n-th put. -/
def parseQstring (qstring : Option Bytes) (draws : Nat → Nat) :
    Option (JsonSkipHead Bytes Bytes) :=
  jsonSkipRun strcmp 4
    ((qstringPairs qstring).mapIdx fun i pair => (.put pair.1 (some pair.2), draws i))

/-! ## The parameters of a query -/

/-- A parameter: the name is what is in front of the first `=` that is not a leading
one, and the value is decoded from what is behind it. -/
def parameter (text : Bytes) : Option (Bytes × Bytes) :=
  let body := text.dropWhile (· = ch '=')
  if body = [] then none
  else some (body.takeWhile (· ≠ ch '='), urldecode (some ((body.dropWhile (· ≠ ch '=')).drop 1)))

/-- The parameters between the separators. -/
def parameters (query : Bytes) : List (Bytes × Bytes) :=
  (query.splitOn (ch '&')).filterMap parameter

theorem urldecode_cstr (s : Bytes) : urldecode (some s) = urldecode (some (cstr s)) := by
  refine urldecode_eq ?_
  have hdecoded := percentDecoded_urldecode (some (cstr s))
  rwa [Option.getD_some, cstr_of_nulFree (nulFree_cstr s)] at hdecoded

/-- What stands behind a zero byte is not part of the C string. -/
theorem cstr_append_stops {s back : Bytes} (hfree : NulFree s) (hback : Stops (· ≠ 0) back) :
    cstr (s ++ back) = s := by
  have hend : cstr back = [] := hback.takeWhile_eq
  rw [cstr_append hfree, hend, List.append_nil]

theorem urldecode_append_stops {s back : Bytes} (hfree : NulFree s)
    (hback : Stops (· ≠ 0) back) : urldecode (some (s ++ back)) = urldecode (some s) := by
  rw [urldecode_cstr, cstr_append_stops hfree hback]

/-- A field of equals signs alone is no parameter. -/
theorem parameter_gap {gap : Bytes} (hgap : ∀ c ∈ gap, c = ch '=') : parameter gap = none := by
  have hbody : gap.dropWhile (· = ch '=') = [] :=
    List.dropWhile_eq_nil_iff.mpr (by simpa using hgap)
  rw [parameter, hbody]
  rfl

/-- The name is the first word that has no equals sign, and the value is the rest. -/
theorem parameter_body {gap word : Bytes} (hgap : ∀ c ∈ gap, c = ch '=') (hne : word ≠ [])
    (hword : WordBytes (ch '=') word) (rest : Bytes) (hrest : Stops (· ≠ ch '=') rest) :
    parameter (gap ++ (word ++ rest)) = some (word, urldecode (some (rest.drop 1))) := by
  obtain ⟨c, more, rfl⟩ := List.exists_cons_of_ne_nil hne
  have hstops : Stops (· = ch '=') (c :: more ++ rest) :=
    stops_cons.mpr (by simpa using (hword c List.mem_cons_self).2)
  have hbytes : ∀ d ∈ c :: more, decide (d ≠ ch '=') = true := by
    intro d hd
    simpa using (hword d hd).2
  rw [parameter, dropWhile_append_stops (by simpa using hgap) hstops, if_neg (by simp),
    takeWhile_append_stops hbytes hrest, dropWhile_append_stops hbytes hrest]

/-- One round of the second pass works inside its parameter. -/
theorem qstringPuts_cons (front : Bytes) {token back : Bytes} (hfree : NulFree token)
    (hback : Stops (· ≠ 0) back) (params : List Nat) :
    ∃ cut, cut.length = token.length ∧
      qstringPuts (front ++ (token ++ back)) (front.length :: params) =
        (parameter token).toList ++ qstringPuts (front ++ (cut ++ back)) params := by
  cases firstToken (ch '=') hfree with
  | gap hgap =>
      refine ⟨token, rfl, ?_⟩
      rw [qstringPuts, aprStrtok_gap front (by decide) hgap hback, parameter_gap hgap]
      rfl
  | @word gap word hgap hne hword =>
      have hcut := aprStrtok_word front hgap hne hword hback
      have hparameter := parameter_body hgap hne hword [] stops_nil
      have hname : (front ++ (gap ++ (word ++ back))).drop (front.length + gap.length) =
          word ++ back := by simp
      have hvalue : (front ++ (gap ++ (word ++ back))).drop
          (front.length + gap.length + word.length) = back := by simp [Nat.add_assoc]
      have hempty := urldecode_append_stops nulFree_nil hback
      refine ⟨gap ++ word, rfl, ?_⟩
      rw [List.append_nil] at hparameter
      rw [List.append_assoc, qstringPuts, hcut, hparameter]
      dsimp only
      rw [hname, hvalue, cstr_append_stops (nulFree_of_wordBytes hword) hback]
      simpa using hempty
  | @cut gap word rest hgap hne hword hrest =>
      have hcut := aprStrtok_cut front (by decide) hgap hne hword (rest ++ back)
      have hparameter := parameter_body hgap hne hword (ch '=' :: rest)
        (stops_cons.mpr (by simp))
      have hname : (front ++ (gap ++ (word ++ 0 :: (rest ++ back)))).drop
          (front.length + gap.length) = word ++ 0 :: (rest ++ back) := by simp
      have hvalue : (front ++ (gap ++ (word ++ 0 :: (rest ++ back)))).drop
          (front.length + gap.length + word.length + 1) = rest ++ back := by simp [Nat.add_assoc]
      have hshape : gap ++ (word ++ ch '=' :: rest) ++ back =
          gap ++ (word ++ ch '=' :: (rest ++ back)) := by simp
      have hzero : Stops (· ≠ 0) (0 :: (rest ++ back)) := stops_cons.mpr (by simp)
      refine ⟨gap ++ (word ++ 0 :: rest), by simp, ?_⟩
      rw [hshape, qstringPuts, hcut, hparameter]
      dsimp only
      rw [hname, hvalue, cstr_append_stops (nulFree_of_wordBytes hword) hzero,
        urldecode_append_stops hrest hback]
      simp

/-- The second pass reads every token the first one left. -/
theorem qstringPuts_layout (front : Bytes) {text : Bytes} {starts : List Nat} {tokens : List Bytes}
    (hlayout : Layout front.length text starts tokens) :
    qstringPuts (front ++ text) starts = tokens.filterMap parameter := by
  generalize hbase : front.length = base at hlayout
  induction hlayout generalizing front with
  | gap => rfl
  | @last base gap token _ hfree =>
      subst hbase
      obtain ⟨cut, -, hputs⟩ := qstringPuts_cons (front ++ gap) hfree stops_nil []
      simp only [List.append_nil, List.append_assoc, List.length_append] at hputs
      rw [hputs, List.filterMap_cons]
      cases parameter token <;> rfl
  | @cons base gap token rest starts tokens _ hfree _ ih =>
      subst hbase
      have hzero : Stops (· ≠ 0) (0 :: rest) := stops_cons.mpr (by simp)
      obtain ⟨cut, hlength, hputs⟩ :=
        qstringPuts_cons (front ++ gap) hfree hzero starts
      have hnext := ih (front ++ (gap ++ (cut ++ [0]))) (by
        simp [hlength, Nat.add_assoc])
      simp only [List.append_assoc, List.length_append, List.cons_append, List.nil_append]
        at hputs hnext
      rw [hputs, hnext, List.filterMap_cons]
      cases parameter token <;> rfl

/-- The buffers and offsets of the two passes come to the parameters of the query. -/
theorem qstringPairs_eq (qstring : Option Bytes) :
    qstringPairs qstring = parameters (cstr (qstring.getD [])) := by
  cases qstring with
  | none => rfl
  | some qstring =>
      obtain ⟨text, starts, hrun, -, hlayout⟩ := @strtokAll_layout (ch '&') (by decide) _ []
        _ (nulFree_cstr qstring) (Nat.lt_succ_self _)
      simp only [List.nil_append, List.length_nil] at hrun hlayout
      have hputs := qstringPuts_layout [] hlayout
      rw [qstringPairs, qstringParams]
      dsimp only
      rw [hrun]
      dsimp only
      rw [List.nil_append] at hputs
      rw [hputs, tokensOf, List.filterMap_filter, parameters]
      refine List.filterMap_congr ?_
      intro token _
      by_cases hempty : token = []
      · simp [hempty, parameter]
      · simp [hempty]

/-- The slots that were allocated are enough. -/
theorem length_qstringParams_le (qstring : Bytes) :
    (qstringParams qstring).2.length ≤ strlen qstring := by
  obtain ⟨text, starts, hrun, hlength, hlayout⟩ := @strtokAll_layout (ch '&') (by decide) _ []
    _ (nulFree_cstr qstring) (Nat.lt_succ_self _)
  simp only [List.nil_append, List.length_nil] at hrun hlayout
  rw [qstringParams, hrun, strlen, ← hlength]
  exact hlayout.length_le

theorem length_qstringPuts_le (q : Bytes) (params : List Nat) :
    (qstringPuts q params).length ≤ params.length := by
  induction params generalizing q with
  | nil => exact Nat.le_refl 0
  | cons x params ih =>
      rw [qstringPuts]
      split
      · exact Nat.le_succ_of_le (ih q)
      · exact Nat.succ_le_succ (ih _)

/-- A query of `n` bytes has at most `n` parameters. -/
theorem length_qstringPairs_le (qstring : Option Bytes) :
    (qstringPairs qstring).length ≤ strlen (qstring.getD []) := by
  cases qstring with
  | none => exact Nat.zero_le _
  | some qstring => exact (length_qstringPuts_le _ _).trans (length_qstringParams_le qstring)

/-- Names are C strings. -/
theorem nulFree_of_mem_qstringPuts {q : Bytes} {params : List Nat} {pair : Bytes × Bytes}
    (hpair : pair ∈ qstringPuts q params) : NulFree pair.1 := by
  induction params generalizing q with
  | nil => simp [qstringPuts] at hpair
  | cons x params ih =>
      rw [qstringPuts] at hpair
      split at hpair
      next => exact ih hpair
      next cut _ =>
        rcases List.mem_cons.mp hpair with rfl | hrest
        · exact nulFree_cstr _
        · exact ih hrest

theorem nulFree_of_mem_qstringPairs {qstring : Option Bytes} {pair : Bytes × Bytes}
    (hpair : pair ∈ qstringPairs qstring) : NulFree pair.1 := by
  cases qstring with
  | none => simp [qstringPairs] at hpair
  | some qstring => exact nulFree_of_mem_qstringPuts hpair

/-! ## Forms -/

/-- A field of a form, with the encoding of its value that a client sends. -/
structure FormField where
  name : Bytes
  value : Bytes
  code : Bytes
  named : name ≠ []
  name_bytes : ∀ c ∈ name, c ≠ ch '&' ∧ c ≠ ch '=' ∧ c ≠ 0
  value_free : NulFree value
  encoded : PercentEncoded value code
  apart : ch '&' ∉ code

def FormField.pair (field : FormField) : Bytes × Bytes := (field.name, field.value)

def FormField.text (field : FormField) : Bytes := field.name ++ ch '=' :: field.code

/-- The query that a form is sent as. -/
def formText (fields : List FormField) : Bytes :=
  [ch '&'].intercalate (fields.map FormField.text)

theorem FormField.nulFree_name (field : FormField) : NulFree field.name :=
  fun hzero => (field.name_bytes 0 hzero).2.2 rfl

theorem FormField.nulFree_text (field : FormField) : NulFree field.text := by
  have hequals : ch '=' ≠ 0 := by decide
  simp [FormField.text, field.nulFree_name, hequals, field.encoded.nulFree field.value_free]

/-- A written field has no ampersand, which separates the fields. -/
theorem FormField.not_mem_text (field : FormField) : ch '&' ∉ field.text := by
  intro hmem
  rcases List.mem_append.mp hmem with hname | hrest
  · exact (field.name_bytes _ hname).1 rfl
  · rcases List.mem_cons.mp hrest with hequals | hcode
    · exact absurd hequals (by decide)
    · exact field.apart hcode

/-- A written field is read back as its name and value. -/
theorem FormField.parameter_text (field : FormField) :
    parameter field.text = some field.pair := by
  have hword : WordBytes (ch '=') field.name := by
    intro c hc
    exact ⟨(field.name_bytes c hc).2.2, (field.name_bytes c hc).2.1⟩
  have hparameter := parameter_body (List.forall_mem_nil (· = ch '=')) field.named hword
    (ch '=' :: field.code) (stops_cons.mpr (by simp))
  rw [List.nil_append, List.drop_one, List.tail_cons,
    urldecode_of_percentEncoded field.value_free field.encoded] at hparameter
  exact hparameter

theorem nulFree_formText (fields : List FormField) : NulFree (formText fields) := by
  have hand : ch '&' ≠ 0 := by decide
  induction fields with
  | nil => exact nulFree_nil
  | cons field rest ih =>
      cases rest with
      | nil => simpa [formText] using field.nulFree_text
      | cons next rest =>
          rw [formText, List.map_cons, List.map_cons, List.intercalate_cons_cons]
          rw [formText, List.map_cons] at ih
          simp [field.nulFree_text, hand, ih]

theorem parameters_formText (fields : List FormField) :
    parameters (formText fields) = fields.map FormField.pair := by
  cases fields with
  | nil => rfl
  | cons field rest =>
      have hpieces : ∀ text ∈ (field :: rest).map FormField.text, ch '&' ∉ text := by
        intro text htext
        obtain ⟨other, -, rfl⟩ := List.mem_map.mp htext
        exact other.not_mem_text
      rw [parameters, formText, List.splitOn_intercalate (ch '&') hpieces (by simp),
        List.filterMap_map, ← List.filterMap_eq_map]
      refine List.filterMap_congr ?_
      intro other _
      exact other.parameter_text

/-! ## The table of a query -/

/-- A table with these entries, in level-0 order. -/
structure HasEntries (head : JsonSkipHead Bytes Bytes) (entries : List (Bytes × Bytes)) : Prop where
  level : levelEntries head = some (entries.map (Prod.map id some))
  count : head.nodeCount = entries.length % 2 ^ 32
  get : ∀ name, jsonSkipGet strcmp head name = some (Assoc.get strcmp name entries)

/-- Whatever is drawn, the table holds the parameters, put one after the other. -/
theorem parseQstring_hasEntries (qstring : Option Bytes) (draws : Nat → Nat) :
    ∃ form, parseQstring qstring draws = some form ∧
      HasEntries form (Assoc.ofPairs strcmp (qstringPairs qstring)) := by
  obtain ⟨form, cells, hrun, hheight, hview, hentries⟩ := refines_run strcmp_order
    (by decide : 1 ≤ 4)
    ((qstringPairs qstring).mapIdx fun i pair => (.put pair.1 (some pair.2), draws i))
  have hpos : 0 < form.height := by omega
  have hputs : (((qstringPairs qstring).mapIdx fun i pair =>
      (AssocOp.put pair.1 (some pair.2), draws i)).map Prod.fst) =
        ((qstringPairs qstring).map (Prod.map id some)).map fun pair => .put pair.1 pair.2 := by
    refine List.ext_getElem? fun i => ?_
    cases hpair : (qstringPairs qstring)[i]? <;> simp [hpair]
  rw [hputs, ← Assoc.ofPairs_eq_run, Assoc.ofPairs_map] at hentries
  refine ⟨form, hrun, ?_, ?_, ?_⟩
  · rw [hview.levelEntries_eq hpos, hentries]
  · rw [hview.count, ← @List.length_map _ _ cells Cell.entry, hentries, List.length_map]
  · intro name
    rw [hview.get_eq strcmp_order hpos, hentries, Assoc.get_map]
    cases Assoc.get strcmp name (Assoc.ofPairs strcmp (qstringPairs qstring)) <;> rfl

/-- The parameters of a written form are its fields, in their order. -/
theorem qstringPairs_formText (fields : List FormField) :
    qstringPairs (some (formText fields)) = fields.map FormField.pair := by
  rw [qstringPairs_eq, Option.getD_some, cstr_of_nulFree (nulFree_formText fields),
    parameters_formText]

/-- The table of a form has one node for every field, and the last field of a name answers;
the tokens of any query fit the slots. -/
theorem parseQstring_recovers_form :
    (∀ (fields : List FormField) (draws : Nat → Nat), ∃ form entries,
      parseQstring (some (formText fields)) draws = some form ∧ HasEntries form entries ∧
        entries.Perm (fields.map FormField.pair) ∧
        ∀ name, NulFree name → jsonSkipGet strcmp form name =
          some ((fields.reverse.find? fun field => field.name = name).map FormField.value)) ∧
    ∀ qstring, (qstringParams qstring).2.length ≤ strlen qstring := by
  refine ⟨?_, length_qstringParams_le⟩
  intro fields draws
  obtain ⟨form, hform, hentries⟩ := parseQstring_hasEntries (some (formText fields)) draws
  rw [qstringPairs_formText] at hentries
  refine ⟨form, _, hform, hentries, Assoc.ofPairs_perm _, ?_⟩
  intro name hname
  rw [hentries.get, Assoc.get_ofPairs strcmp_order, ← List.map_reverse, List.find?_map,
    Option.map_map]
  have hsame : (fun pair : Bytes × Bytes => decide (strcmp name pair.1 = 0)) ∘ FormField.pair =
      fun field => decide (field.name = name) := by
    funext field
    simp [FormField.pair, strcmp_eq_zero_iff hname field.nulFree_name, eq_comm]
  rw [hsame]
  rfl

/-- A field whose value has an `=` and one whose value is empty, under one name. -/
def repeatedFields : List FormField :=
  [⟨bytes "SQL", bytes "a=b c", bytes "a=b+%63", by decide, by decide +kernel, by decide,
      .literal (by decide) (by decide) (.literal (by decide) (by decide)
        (.literal (by decide) (by decide) (.plus (.escape rfl rfl rfl .nil)))), by decide⟩,
    ⟨bytes "SQL", [], [], by decide, by decide +kernel, by decide, .nil, by decide⟩]

theorem parseQstring_recovers_form_repeated :
    ∃ form, parseQstring (some (bytes "SQL=a=b+%63&SQL=")) (fun _ => 0) = some form ∧
      jsonSkipGet strcmp form (bytes "SQL") = some (some []) := by
  obtain ⟨form, _, hform, -, -, hget⟩ :=
    parseQstring_recovers_form.1 repeatedFields fun _ => 0
  exact ⟨form, hform, hget (bytes "SQL") (by decide)⟩

end DbSlayer.Http
