import DbSlayer.Json.Containers

/-! # The decoder accepts its grammar

Soundness and completeness of `decodeJsonValue`, by induction on the recursion
budget and on the nesting allowance. A value that is accepted denotes what was
read, unless a number left an exponent mark behind; nothing that may follow a
value starts with one, so the mark is rejected by whoever reads on.
-/

namespace DbSlayer.Json

open Foundation

variable {δ : Type} [CDouble δ]

/-- Append what an element denotes. -/
def elementMeaning (elements : List (JsonValue δ)) (ast : Ast) : List (JsonValue δ) :=
  elements ++ [ast.denote]

/-- Put what a member denotes. -/
def memberMeaning (entries : Entries δ) (member : Bytes × Ast) : Entries δ :=
  objectPut entries (cstr member.1) member.2.denote

theorem foldl_elementMeaning (asts : List Ast) :
    JsonValue.array (asts.foldl elementMeaning []) = (Ast.array asts).denote (δ := δ) := by
  have hfold : ∀ elements : List (JsonValue δ),
      asts.foldl elementMeaning elements = elements ++ asts.map Ast.denote := by
    induction asts with
    | nil => simp
    | cons ast asts ih =>
        intro elements
        rw [List.foldl_cons, ih, elementMeaning, List.map_cons, List.append_assoc,
          List.singleton_append]
  rw [hfold, Ast.denote, denoteElements_eq_map, List.nil_append]

theorem foldl_memberMeaning (members : List (Bytes × Ast)) :
    JsonValue.object (members.foldl memberMeaning []) =
      (Ast.object members).denote (δ := δ) := by
  rw [Ast.denote, denoteMembers_eq_map, objectOf, List.foldl_map]
  rfl

/-! ## Soundness -/

/-- What the decoder returns was derived from the text it consumed. -/
def ValueSound (decode : Decoder (JsonValue δ)) (allowed depth : Nat) : Prop :=
  ∀ s value after, NulFree s → decode ⟨s, depth⟩ = some (value, after) →
    after.depth = depth ∧ ∃ left text ast, s = left ++ (text ++ after.offset) ∧ Blank left ∧
      Derives allowed ast text ∧ (Stops isNumberByte after.offset → value = ast.denote)

/-- An element is a value of the grammar, given that the decoder of values is sound. -/
theorem decodeElement_sound {decode : Decoder (JsonValue δ)} {allowed depth : Nat}
    (hdecode : ValueSound decode allowed depth) :
    StepSound (Derives allowed) elementMeaning (decodeElement decode) depth := by
  intro elements s elements' after hfree hone
  simp only [decodeElement, Option.bind_eq_bind, Option.bind_eq_some_iff] at hone
  obtain ⟨⟨element, after'⟩, hvalue, hresult⟩ := hone
  simp only [Option.pure_def, Option.some.injEq, Prod.mk.injEq] at hresult
  obtain ⟨rfl, rfl⟩ := hresult
  obtain ⟨hdepth, left, text, ast, hsplit, hleft, hast, hdenote⟩ :=
    hdecode s element after' hfree hvalue
  refine ⟨hdepth, left, text, ast, hsplit, hleft, hast, ?_⟩
  intro hstops
  rw [hdenote hstops, elementMeaning]

theorem decodeMember_sound {decode : Decoder (JsonValue δ)} {allowed depth : Nat}
    (hdecode : ValueSound decode allowed depth) :
    StepSound (Member (Derives allowed)) memberMeaning (decodeMember decode) depth := by
  intro entries s entries' after hfree hone
  obtain ⟨left, s₁, rfl, hleft, hskip⟩ := JsonString.exists_skipSpace s depth
  simp only [decodeMember, hskip] at hone
  split at hone
  next => simp at hone
  next hquote =>
    cases s₁ with
    | nil => simp at hquote
    | cons c s₁ =>
        obtain rfl : c = ch '"' := by simpa using hquote
        simp only [Option.bind_eq_bind, Option.bind_eq_some_iff] at hone
        obtain ⟨⟨name, after₁⟩, hname, hone⟩ := hone
        simp only [nulFree_append, nulFree_cons] at hfree
        obtain ⟨hdepth, body, content, rfl, hbody, rfl⟩ :=
          decodeJsonString_sound hfree.2.2 hname
        obtain ⟨s₂, depth₁⟩ := after₁
        simp only at hdepth
        subst hdepth
        obtain ⟨before, s₃, rfl, hbefore, hskip'⟩ := JsonString.exists_skipSpace s₂ depth₁
        simp only [hskip'] at hone
        split at hone
        next => simp at hone
        next hcolon =>
          cases s₃ with
          | nil => simp at hcolon
          | cons c s₃ =>
              obtain rfl : c = ch ':' := by simpa using hcolon
              obtain ⟨behind, s₄, rfl, hbehind, hskip''⟩ :=
                JsonString.exists_skipSpace s₃ depth₁
              simp only [List.drop_succ_cons, List.drop_zero, hskip'',
                Option.bind_eq_some_iff] at hone
              obtain ⟨⟨value, after₂⟩, hvalue, hresult⟩ := hone
              simp only [Option.pure_def, Option.some.injEq, Prod.mk.injEq] at hresult
              obtain ⟨rfl, rfl⟩ := hresult
              simp only [nulFree_append, nulFree_cons] at hfree
              obtain ⟨hdepth, gap, text, ast, rfl, hgap, hast, hdenote⟩ :=
                hdecode s₄ value after₂ hfree.2.2.2.2.2.2.2 hvalue
              have hblank : Blank (behind ++ gap) := fun b hb =>
                (List.mem_append.mp hb).elim (hbehind b) (hgap b)
              refine ⟨hdepth, left, _, (content, ast), ?_, hleft,
                .mk hbody hbefore hblank hast, ?_⟩
              · simp
              · intro hstops
                rw [hdenote hstops, memberMeaning]

omit [CDouble δ] in
theorem decodeLiteral_sound {literal s : Bytes} {value value' : JsonValue δ} {depth : Nat}
    {after : JsonString} (hdecode : decodeLiteral literal value ⟨s, depth⟩ = some (value', after)) :
    after.depth = depth ∧ s = literal ++ after.offset ∧ value' = value := by
  simp only [decodeLiteral] at hdecode
  split at hdecode
  next hprefix =>
    simp only [Option.some.injEq, Prod.mk.injEq] at hdecode
    obtain ⟨rfl, rfl⟩ := hdecode
    obtain ⟨rest, rfl⟩ := List.isPrefixOf_iff_prefix.mp hprefix
    exact ⟨rfl, by simp, rfl⟩
  next => simp at hdecode

theorem derives_scalar {allowed : Nat} {ast : Ast} {text : Bytes} (hscalar : Scalar ast text) :
    Derives allowed ast text := by
  cases allowed with
  | zero => exact hscalar
  | succ allowed => exact .inl hscalar

/-- One more container around members that are sound. -/
theorem decodeNested_sound {decode : Decoder (JsonValue δ)} {allowed depth : Nat}
    (hdecode : ValueSound decode allowed depth) {c : Byte} (hc : c = ch '[' ∨ c = ch '{')
    {s : Bytes} {value : JsonValue δ} {after : JsonString} (hfree : NulFree s)
    (hone : decodeNested decode c ⟨c :: s, depth⟩ = some (value, after)) :
    after.depth = depth ∧ ∃ text ast, c :: s = text ++ after.offset ∧
      Container (Derives allowed) ast text ∧ value = ast.denote := by
  rcases hc with rfl | rfl
  · rw [decodeNested, if_pos rfl] at hone
    obtain ⟨hdepth, asts, inner, rfl, hinner, rfl⟩ :=
      decodeContainer_sound (decodeElement_sound hdecode) (by decide) hfree hone
    refine ⟨hdepth, ch '[' :: (inner ++ [ch ']']), .array asts, by simp, ?_,
      foldl_elementMeaning asts⟩
    rcases hinner with ⟨rfl, hblank⟩ | hinner
    · exact .emptyArray hblank
    · exact .array hinner
  · rw [decodeNested, if_neg (by decide)] at hone
    obtain ⟨hdepth, members, inner, rfl, hinner, rfl⟩ :=
      decodeContainer_sound (decodeMember_sound hdecode) (by decide) hfree hone
    refine ⟨hdepth, ch '{' :: (inner ++ [ch '}']), .object members, by simp, ?_,
      foldl_memberMeaning members⟩
    rcases hinner with ⟨rfl, hblank⟩ | hinner
    · exact .emptyObject hblank
    · exact .object hinner

/-- What the decoder of values accepts is a value of the grammar, by induction on the budget:
a container hands the rest of it to its elements. -/
theorem decodeJsonValue_sound (budget depth : Nat) :
    ValueSound (decodeJsonValue (δ := δ) budget) (jsonMaxDepth - depth) depth := by
  induction budget generalizing depth with
  | zero =>
      intro s value after hfree hdecode
      simp [decodeJsonValue] at hdecode
  | succ budget ih =>
      intro s value after hfree hdecode
      obtain ⟨left, s, rfl, hleft, hskip⟩ := JsonString.exists_skipSpace s depth
      rw [nulFree_append] at hfree
      simp only [decodeJsonValue, hskip] at hdecode
      cases s with
      | nil => simp at hdecode
      | cons c s =>
          -- what all values but the containers have in common
          have hscalar : after.depth = depth → ∀ text ast, c :: s = text ++ after.offset →
              Scalar ast text → (Stops isNumberByte after.offset → value = ast.denote) →
              after.depth = depth ∧ ∃ left' text ast,
                left ++ c :: s = left' ++ (text ++ after.offset) ∧ Blank left' ∧
                Derives (jsonMaxDepth - depth) ast text ∧
                (Stops isNumberByte after.offset → value = ast.denote) := by
            intro hdepth text ast hsplit hast hdenote
            exact ⟨hdepth, left, text, ast, by rw [hsplit], hleft, derives_scalar hast, hdenote⟩
          simp only at hdecode
          split at hdecode
          next hquote =>
            obtain rfl := hquote
            simp only [Option.bind_eq_bind, Option.bind_eq_some_iff] at hdecode
            obtain ⟨⟨content, after'⟩, hstring, hresult⟩ := hdecode
            simp only [Option.pure_def, Option.some.injEq, Prod.mk.injEq] at hresult
            obtain ⟨rfl, rfl⟩ := hresult
            obtain ⟨hdepth, body, content, rfl, hbody, rfl⟩ :=
              decodeJsonString_sound (nulFree_cons.mp hfree.2).2 hstring
            exact hscalar hdepth (ch '"' :: (body ++ [ch '"'])) (.string content) (by simp)
              (.string hbody) (fun _ => rfl)
          next hquote =>
            split at hdecode
            next hopen =>
              split at hdecode
              next => simp at hdecode
              next hdeep =>
                simp only [Option.bind_eq_bind, Option.bind_eq_some_iff] at hdecode
                obtain ⟨⟨value', after'⟩, hone, hresult⟩ := hdecode
                simp only [Option.pure_def, Option.some.injEq, Prod.mk.injEq] at hresult
                obtain ⟨rfl, rfl⟩ := hresult
                obtain ⟨hdepth, text, ast, hsplit, hast, rfl⟩ := decodeNested_sound
                  (ih (depth + 1)) hopen (nulFree_cons.mp hfree.2).2 hone
                have hallowed : jsonMaxDepth - depth = jsonMaxDepth - (depth + 1) + 1 := by omega
                refine ⟨by simp [hdepth], left, text, ast, by rw [hsplit], hleft, ?_,
                  fun _ => rfl⟩
                rw [hallowed]
                exact .inr hast
            next hopen =>
              split at hdecode
              next hnull =>
                obtain ⟨hdepth, hsplit, rfl⟩ := decodeLiteral_sound hdecode
                exact hscalar hdepth _ _ hsplit .null (fun _ => rfl)
              next hnull =>
                split at hdecode
                next hboolean =>
                  simp only [decodeJsonBoolean] at hdecode
                  split at hdecode
                  next result htrue =>
                    obtain rfl : result = (value, after) := by simpa using hdecode
                    obtain ⟨hdepth, hsplit, rfl⟩ := decodeLiteral_sound htrue
                    exact hscalar hdepth _ _ hsplit .isTrue (fun _ => rfl)
                  next =>
                    obtain ⟨hdepth, hsplit, rfl⟩ := decodeLiteral_sound hdecode
                    exact hscalar hdepth _ _ hsplit .isFalse (fun _ => rfl)
                next hboolean =>
                  split at hdecode
                  next hnumber =>
                    obtain ⟨hdepth, text, hsplit, htext, hvalue⟩ :=
                      decodeJsonNumber_sound rfl hnumber hdecode
                    exact hscalar hdepth text (.number text) hsplit (.number htext) hvalue
                  next => simp at hdecode

/-! ## Completeness -/

/-- Every text that derives a value is decoded when a delimiter follows it. -/
def ValueComplete (decode : Decoder (JsonValue δ)) (allowed depth : Nat) : Prop :=
  ∀ left text ast rest, Blank left → Derives allowed ast text → Stops isNumberByte rest →
    decode ⟨left ++ (text ++ rest), depth⟩ = some (ast.denote, ⟨rest, depth⟩)

theorem numberText_head {text : Bytes} (htext : NumberText text) :
    ∃ c rest, text = c :: rest ∧ (c = ch '-' ∨ isdigit c = true) := by
  obtain ⟨⟨c, hhead, hc⟩, _⟩ := htext
  cases text with
  | nil => simp at hhead
  | cons d rest =>
      obtain rfl : d = c := by simpa using hhead
      exact ⟨d, rest, rfl, hc⟩

theorem numberHead_apart {c : Byte} (hc : c = ch '-' ∨ isdigit c = true) :
    isspace c = false ∧ c ≠ ch ']' ∧ c ≠ ch '"' ∧ ¬ (c = ch '[' ∨ c = ch '{') ∧ c ≠ ch 'n' ∧
      ¬ (c = ch 't' ∨ c = ch 'f') :=
  forall_byte (p := fun c => c = ch '-' ∨ isdigit c = true →
    isspace c = false ∧ c ≠ ch ']' ∧ c ≠ ch '"' ∧ ¬ (c = ch '[' ∨ c = ch '{') ∧ c ≠ ch 'n' ∧
      ¬ (c = ch 't' ∨ c = ch 'f')) (by decide +kernel) c hc

/-- No value starts with a blank or with the end of an array. -/
theorem derives_head {allowed : Nat} {ast : Ast} {text : Bytes} (hast : Derives allowed ast text) :
    ∃ c rest, text = c :: rest ∧ isspace c = false ∧ c ≠ ch ']' := by
  have hscalar : Scalar ast text → ∃ c rest, text = c :: rest ∧ isspace c = false ∧
      c ≠ ch ']' := by
    intro hast
    cases hast with
    | null => exact ⟨ch 'n', bytes "ull", rfl, by decide, by decide⟩
    | isTrue => exact ⟨ch 't', bytes "rue", rfl, by decide, by decide⟩
    | isFalse => exact ⟨ch 'f', bytes "alse", rfl, by decide, by decide⟩
    | string hbody => exact ⟨ch '"', _, rfl, by decide, by decide⟩
    | number htext =>
        obtain ⟨c, rest, rfl, hc⟩ := numberText_head htext
        obtain ⟨hspace, hclose, _⟩ := numberHead_apart hc
        exact ⟨c, rest, rfl, hspace, hclose⟩
  cases allowed with
  | zero => exact hscalar hast
  | succ allowed =>
      rcases hast with hast | hast
      · exact hscalar hast
      · cases hast with
        | emptyArray _ => exact ⟨ch '[', _, rfl, by decide, by decide⟩
        | array _ => exact ⟨ch '[', _, rfl, by decide, by decide⟩
        | emptyObject _ => exact ⟨ch '{', _, rfl, by decide, by decide⟩
        | object _ => exact ⟨ch '{', _, rfl, by decide, by decide⟩

/-- Every value of the grammar is an element, given that the decoder of values is complete. -/
theorem decodeElement_complete {decode : Decoder (JsonValue δ)} {allowed depth : Nat}
    (hdecode : ValueComplete decode allowed depth) :
    StepComplete (Derives allowed) elementMeaning (decodeElement decode) depth := by
  intro elements left text ast rest hleft hast hstops
  simp [decodeElement, hdecode left text ast rest hleft hast hstops, elementMeaning]

theorem decodeMember_complete {decode : Decoder (JsonValue δ)} {allowed depth : Nat}
    (hdecode : ValueComplete decode allowed depth) :
    StepComplete (Member (Derives allowed)) memberMeaning (decodeMember decode) depth := by
  rintro entries left text member rest hleft hmember hstops
  cases hmember with
  | @mk name body before behind text ast hbody hbefore hbehind hast =>
      have hname : decodeJsonString
          ⟨ch '"' :: (body ++ ch '"' :: (before ++ ch ':' :: (behind ++ (text ++ rest)))), depth⟩ =
            some (cstr name, ⟨before ++ ch ':' :: (behind ++ (text ++ rest)), depth⟩) :=
        decodeJsonString_complete hbody
      have hquote : Stops isspace
          (ch '"' :: (body ++ ch '"' :: (before ++ ch ':' :: (behind ++ (text ++ rest))))) :=
        stops_cons.mpr (by decide)
      have hcolon : Stops isspace (ch ':' :: (behind ++ (text ++ rest))) :=
        stops_cons.mpr (by decide)
      have hvalue := hdecode [] text ast rest (by simp [Blank]) hast hstops
      rw [List.nil_append] at hvalue
      have hspace : Stops isspace (text ++ rest) := by
        obtain ⟨c, text, rfl, hspace, _⟩ := derives_head hast
        exact stops_cons.mpr hspace
      have hshape : left ++ (ch '"' :: (body ++ ch '"' :: (before ++ ch ':' :: (behind ++ text))) ++
          rest) = left ++ ch '"' :: (body ++ ch '"' :: (before ++ ch ':' ::
            (behind ++ (text ++ rest)))) := by simp
      rw [hshape]
      simp [decodeMember, JsonString.skipSpace_append hleft hquote, hname,
        JsonString.skipSpace_append hbefore hcolon, JsonString.skipSpace_append hbehind hspace,
        hvalue, memberMeaning]

omit [CDouble δ] in
theorem decodeLiteral_append {literal rest : Bytes} {value : JsonValue δ} {depth : Nat} :
    decodeLiteral literal value ⟨literal ++ rest, depth⟩ = some (value, ⟨rest, depth⟩) := by
  simp [decodeLiteral]

/-- A container is decoded with one level less to go. -/
theorem decodeNested_complete {decode : Decoder (JsonValue δ)} {allowed depth : Nat}
    (hdecode : ValueComplete decode allowed depth) {ast : Ast} {text : Bytes}
    (hast : Container (Derives allowed) ast text) (rest : Bytes) :
    ∃ c inner, text = c :: inner ∧ (c = ch '[' ∨ c = ch '{') ∧
      decodeNested decode c ⟨text ++ rest, depth⟩ = some (ast.denote, ⟨rest, depth⟩) := by
  have hbracket : Closes (ch ']') := by
    refine ⟨by decide, by decide, by decide⟩
  have hbrace : Closes (ch '}') := by
    refine ⟨by decide, by decide, by decide⟩
  have hbracket' : decodeNested decode (ch '[') = decodeJsonArray decode := if_pos rfl
  have hbrace' : decodeNested decode (ch '{') = decodeJsonObject decode :=
    if_neg (by decide)
  cases hast with
  | @emptyArray blank hblank =>
      refine ⟨ch '[', _, rfl, .inl rfl, ?_⟩
      rw [hbracket', ← foldl_elementMeaning, List.cons_append, List.append_assoc]
      exact decodeContainer_empty hbracket hblank _ _
  | @array elements inner hinner =>
      refine ⟨ch '[', _, rfl, .inl rfl, ?_⟩
      rw [hbracket', ← foldl_elementMeaning, List.cons_append, List.append_assoc]
      exact decodeContainer_complete (decodeElement_complete hdecode) hbracket
        (fun _ _ => derives_head) hinner _ _
  | @emptyObject blank hblank =>
      refine ⟨ch '{', _, rfl, .inr rfl, ?_⟩
      rw [hbrace', ← foldl_memberMeaning, List.cons_append, List.append_assoc]
      exact decodeContainer_empty hbrace hblank _ _
  | @object members inner hinner =>
      refine ⟨ch '{', _, rfl, .inr rfl, ?_⟩
      rw [hbrace', ← foldl_memberMeaning, List.cons_append, List.append_assoc]
      refine decodeContainer_complete (decodeMember_complete hdecode) hbrace ?_ hinner _ _
      intro member text hmember
      cases hmember with
      | mk _ _ _ _ => exact ⟨ch '"', _, rfl, by decide, by decide⟩

/-- The bytes that `decodeJsonValue` dispatches on. -/
theorem decodeJsonValue_at {budget depth : Nat} {left s : Bytes} {c : Byte} (hleft : Blank left)
    (hspace : isspace c = false) :
    decodeJsonValue (δ := δ) (budget + 1) ⟨left ++ c :: s, depth⟩ =
      decodeJsonValue (budget + 1) ⟨c :: s, depth⟩ := by
  have hstops : Stops isspace (c :: s) := stops_cons.mpr hspace
  have hskip : JsonString.skipSpace ⟨c :: s, depth⟩ = ⟨c :: s, depth⟩ :=
    congrArg (JsonString.mk · depth) hstops.dropWhile_eq
  simp only [decodeJsonValue, JsonString.skipSpace_append hleft hstops, hskip]

theorem decodeJsonValue_scalar {budget depth : Nat} {ast : Ast} {text rest : Bytes}
    (hast : Scalar ast text) (hstops : Stops isNumberByte rest) :
    decodeJsonValue (δ := δ) (budget + 1) ⟨text ++ rest, depth⟩ =
      some (ast.denote, ⟨rest, depth⟩) := by
  cases hast with
  | null =>
      have hselect : decodeJsonValue (δ := δ) (budget + 1) ⟨bytes "null" ++ rest, depth⟩ =
          decodeJsonNull ⟨bytes "null" ++ rest, depth⟩ := rfl
      rw [hselect, decodeJsonNull, decodeLiteral_append, Ast.denote]
  | isTrue =>
      have hselect : decodeJsonValue (δ := δ) (budget + 1) ⟨bytes "true" ++ rest, depth⟩ =
          decodeJsonBoolean ⟨bytes "true" ++ rest, depth⟩ := rfl
      rw [hselect, decodeJsonBoolean, decodeLiteral_append, Ast.denote]
      rfl
  | isFalse =>
      have hselect : decodeJsonValue (δ := δ) (budget + 1) ⟨bytes "false" ++ rest, depth⟩ =
          decodeLiteral (bytes "false") (.boolean 0) ⟨bytes "false" ++ rest, depth⟩ := rfl
      rw [hselect, decodeLiteral_append, Ast.denote]
      rfl
  | @string body content hbody =>
      have hskip : JsonString.skipSpace ⟨ch '"' :: (body ++ ch '"' :: rest), depth⟩ =
          ⟨ch '"' :: (body ++ ch '"' :: rest), depth⟩ := rfl
      rw [List.cons_append, List.append_assoc, List.singleton_append]
      simp [decodeJsonValue, hskip, decodeJsonString_complete hbody, Ast.denote]
  | @number text htext =>
      obtain ⟨c, more, rfl, hc⟩ := numberText_head htext
      obtain ⟨hspace, _, hquote, hopen, hnull, hboolean⟩ := numberHead_apart hc
      have hskip : JsonString.skipSpace ⟨c :: (more ++ rest), depth⟩ =
          ⟨c :: (more ++ rest), depth⟩ :=
        congrArg (JsonString.mk · depth) (stops_cons.mpr hspace).dropWhile_eq
      have hnumber : decodeJsonNumber (δ := δ) ⟨c :: more ++ rest, depth⟩ = _ :=
        decodeJsonNumber_complete htext hstops
      rw [List.cons_append] at hnumber ⊢
      simp only [decodeJsonValue, hskip, if_neg hquote, if_neg hopen, if_neg hnull,
        if_neg hboolean, if_pos hc, hnumber, Ast.denote]

/-- Every value of the grammar is accepted, by induction on its depth. The budget only has to
exceed the depth that is allowed. -/
theorem decodeJsonValue_complete {allowed budget depth : Nat} (hbudget : allowed < budget)
    (hdepth : allowed + depth ≤ jsonMaxDepth) :
    ValueComplete (decodeJsonValue (δ := δ) budget) allowed depth := by
  induction allowed generalizing budget depth with
  | zero =>
      intro left text ast rest hleft hast hstops
      obtain ⟨budget, rfl⟩ := Nat.exists_eq_add_one.mpr hbudget
      obtain ⟨c, more, rfl, hspace, _⟩ := derives_head hast
      rw [List.cons_append, decodeJsonValue_at hleft hspace]
      exact decodeJsonValue_scalar hast hstops
  | succ allowed ih =>
      intro left text ast rest hleft hast hstops
      obtain ⟨budget, rfl⟩ : ∃ n, budget = n + 1 := ⟨budget - 1, by omega⟩
      obtain ⟨c, more, rfl, hspace, _⟩ := derives_head hast
      rw [List.cons_append, decodeJsonValue_at hleft hspace]
      rcases hast with hast | hast
      · exact decodeJsonValue_scalar hast hstops
      · have hmembers : ValueComplete (decodeJsonValue (δ := δ) budget) allowed (depth + 1) :=
          ih (by omega) (by omega)
        obtain ⟨c', inner, heq, hopen, hnested⟩ := decodeNested_complete hmembers hast rest
        obtain ⟨rfl, rfl⟩ : c = c' ∧ more = inner := by simpa using heq
        have hskip : JsonString.skipSpace ⟨c :: (more ++ rest), depth⟩ =
            ⟨c :: (more ++ rest), depth⟩ :=
          congrArg (JsonString.mk · depth) (stops_cons.mpr hspace).dropWhile_eq
        have hquote : c ≠ ch '"' := by rcases hopen with rfl | rfl <;> decide
        have hshallow : ¬ depth + 1 > jsonMaxDepth := by omega
        rw [List.cons_append] at hnested
        simp [decodeJsonValue, hskip, hquote, hopen, hshallow, hnested]

/-! ## Whole texts -/

/-- An accepted text is a text of the grammar, and decodes to what it denotes. -/
theorem decodeJson_sound {s : Bytes} {size : Int32} {value : JsonValue δ} (hfree : NulFree s)
    (hsize : size.toInt = strlen s) (hdecode : decodeJson s size = some value) :
    ∃ ast, TextOf jsonMaxDepth ast s ∧ value = ast.denote := by
  have hlength : size.toInt.toNat = s.length := by rw [hsize, strlen_of_nulFree hfree]; rfl
  simp only [decodeJson, hlength, List.take_length, Option.bind_eq_bind,
    Option.bind_eq_some_iff] at hdecode
  obtain ⟨⟨out, after⟩, hvalue, hend⟩ := hdecode
  split at hend
  next hnil =>
    obtain rfl : out = value := by simpa using hend
    obtain ⟨-, left, text, ast, rfl, hleft, hast, hdenote⟩ :=
      decodeJsonValue_sound (jsonMaxDepth + 1) 0 s out after hfree hvalue
    have hright : Blank after.offset := by
      intro c hc
      exact List.dropWhile_eq_nil_iff.mp hnil c hc
    refine ⟨ast, ⟨left, text, after.offset, hleft, hright, hast, rfl⟩, hdenote ?_⟩
    rw [← List.append_nil after.offset]
    exact blank_stops hright stops_nil
  next => simp at hend

/-- `decode_json` on a whole text, however long it is. -/
def decodeText (text : Bytes) : Option (JsonValue δ) := do
  let (out, rest) ← decodeJsonValue (jsonMaxDepth + 1) ⟨text, 0⟩
  if rest.skipSpace.offset = [] then some out else none

/-- A text of the grammar is accepted, and decodes to what it denotes. -/
theorem decodeText_complete {s : Bytes} {ast : Ast} (htext : TextOf jsonMaxDepth ast s) :
    decodeText s = some (ast.denote (δ := δ)) := by
  obtain ⟨left, inner, right, hleft, hright, hast, rfl⟩ := htext
  have hstops : Stops isNumberByte right := by
    rw [← List.append_nil right]
    exact blank_stops hright stops_nil
  have hvalue := decodeJsonValue_complete (δ := δ) (Nat.lt_succ_self jsonMaxDepth)
    (Nat.le_refl (jsonMaxDepth + 0)) left inner ast right hleft hast hstops
  have hnil : right.dropWhile isspace = [] := List.dropWhile_eq_nil_iff.mpr hright
  simp only [decodeText, Option.bind_eq_bind]
  rw [hvalue, Option.bind_some, JsonString.skipSpace, if_pos hnil]

/-- A length that an `int` can hold is that of the whole text. -/
theorem decodeJson_eq_decodeText {s : Bytes} {size : Int32} (hfree : NulFree s)
    (hsize : size.toInt = strlen s) : decodeJson (δ := δ) s size = decodeText s := by
  have hlength : size.toInt.toNat = s.length := by rw [hsize, strlen_of_nulFree hfree]; rfl
  rw [decodeJson, hlength, List.take_length]
  rfl

theorem decodeJson_complete {s : Bytes} {size : Int32} {ast : Ast} (hfree : NulFree s)
    (hsize : size.toInt = strlen s) (htext : TextOf jsonMaxDepth ast s) :
    decodeJson s size = some (ast.denote (δ := δ)) := by
  rw [decodeJson_eq_decodeText hfree hsize]
  exact decodeText_complete htext

/-- A text is accepted if and only if it derives from the grammar with at most
`jsonMaxDepth` nested containers, and what is returned is what it denotes. -/
theorem decodeJson_accepts_grammar (s : Bytes) (size : Int32) (hfree : NulFree s)
    (hsize : size.toInt = strlen s) :
    ((∃ value : JsonValue δ, decodeJson s size = some value) ↔
        ∃ ast, TextOf jsonMaxDepth ast s) ∧
      (∀ ast, TextOf jsonMaxDepth ast s → decodeJson s size = some (ast.denote (δ := δ))) ∧
      Denotation (Ast.denote (δ := δ)) := by
  refine ⟨⟨?_, ?_⟩, fun ast htext => decodeJson_complete hfree hsize htext, denote_denotation⟩
  · rintro ⟨value, hvalue⟩
    obtain ⟨ast, htext, -⟩ := decodeJson_sound hfree hsize hvalue
    exact ⟨ast, htext⟩
  · rintro ⟨ast, htext⟩
    exact ⟨_, decodeJson_complete hfree hsize htext⟩

theorem decodeJson_accepts_array :
    (9 : Int32).toInt = strlen (bytes "[-1,true]") ∧
      decodeJson (bytes "[-1,true]") 9 =
        some (.array [.long (-1), .boolean 1] : JsonValue Bytes) := by
  have hnumber : Derives 63 (.number (bytes "-1")) (bytes "-1") :=
    derives_scalar (.number ⟨⟨ch '-', rfl, .inl rfl⟩, [ch '-'], bytes "1", [], .inr rfl,
      .whole (by decide) (by simp [Digits, bytes]; decide), .absent, rfl⟩)
  have hblank : Blank [] := by simp [Blank]
  have htext : TextOf jsonMaxDepth (.array [.number (bytes "-1"), .boolean true])
      (bytes "[-1,true]") :=
    ⟨[], bytes "[-1,true]", [], hblank, hblank,
      .inr (.array (.cons hblank hnumber hblank (.one hblank (derives_scalar .isTrue) hblank))),
      rfl⟩
  have hdecode := (decodeJson_accepts_grammar (δ := Bytes) (bytes "[-1,true]") 9 (by decide)
    (by decide)).2.1 _ htext
  exact ⟨by decide, hdecode⟩

end DbSlayer.Json
