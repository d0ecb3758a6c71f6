import DbSlayer.Json.Correctness

/-! # Texts with their literals

The grammar once more, with a tree whose strings and names are the texts between
the quotes instead of what they stand for. The content of a literal is a function
of its text, so the tree of the decoder is an image of this one. The trees inside a
tree stand inside its text.
-/

namespace DbSlayer.Json

/-! ## Trees of literals -/

mutual

/-- The tree with something else in the place of every string and name. -/
def Ast.mapStrings (f : Bytes → Bytes) : Ast → Ast
  | .null => .null
  | .boolean value => .boolean value
  | .string content => .string (f content)
  | .number text => .number text
  | .array elements => .array (mapElements f elements)
  | .object members => .object (mapMembers f members)

def mapElements (f : Bytes → Bytes) : List Ast → List Ast
  | [] => []
  | element :: rest => element.mapStrings f :: mapElements f rest

def mapMembers (f : Bytes → Bytes) : List (Bytes × Ast) → List (Bytes × Ast)
  | [] => []
  | (name, value) :: rest => (f name, value.mapStrings f) :: mapMembers f rest

end

mutual

/-- Every string and every name of a tree. -/
def Ast.strings : Ast → List Bytes
  | .null | .boolean _ | .number _ => []
  | .string content => [content]
  | .array elements => elementStrings elements
  | .object members => memberStrings members

def elementStrings : List Ast → List Bytes
  | [] => []
  | element :: rest => element.strings ++ elementStrings rest

def memberStrings : List (Bytes × Ast) → List Bytes
  | [] => []
  | (name, value) :: rest => name :: (value.strings ++ memberStrings rest)

end

theorem mapElements_eq_map (f : Bytes → Bytes) (elements : List Ast) :
    mapElements f elements = elements.map (Ast.mapStrings f) := by
  induction elements with
  | nil => rfl
  | cons element rest ih => rw [mapElements, ih, List.map_cons]

theorem mapMembers_eq_map (f : Bytes → Bytes) (members : List (Bytes × Ast)) :
    mapMembers f members = members.map (Prod.map f (Ast.mapStrings f)) := by
  induction members with
  | nil => rfl
  | cons member rest ih =>
      rw [mapMembers, ih]
      rfl

/-! ## The grammar -/

/-- A literal is the text of some string. -/
def IsLiteral (body : Bytes) : Prop := ∃ content, StringBody body content

inductive LiteralScalar : Ast → Bytes → Prop
  | null : LiteralScalar .null (bytes "null")
  | isTrue : LiteralScalar (.boolean true) (bytes "true")
  | isFalse : LiteralScalar (.boolean false) (bytes "false")
  | string {body : Bytes} : IsLiteral body →
      LiteralScalar (.string body) (ch '"' :: (body ++ [ch '"']))
  | number {text : Bytes} : NumberText text → LiteralScalar (.number text) text

inductive LiteralMember (value : Ast → Bytes → Prop) : Bytes × Ast → Bytes → Prop
  | mk {body left right text : Bytes} {ast : Ast} : IsLiteral body → Blank left → Blank right →
      value ast text →
      LiteralMember value (body, ast)
        (ch '"' :: (body ++ ch '"' :: (left ++ ch ':' :: (right ++ text))))

inductive LiteralContainer (value : Ast → Bytes → Prop) : Ast → Bytes → Prop
  | emptyArray {blank : Bytes} : Blank blank →
      LiteralContainer value (.array []) (ch '[' :: (blank ++ [ch ']']))
  | array {elements : List Ast} {inner : Bytes} : Separated value elements inner →
      LiteralContainer value (.array elements) (ch '[' :: (inner ++ [ch ']']))
  | emptyObject {blank : Bytes} : Blank blank →
      LiteralContainer value (.object []) (ch '{' :: (blank ++ [ch '}']))
  | object {members : List (Bytes × Ast)} {inner : Bytes} :
      Separated (LiteralMember value) members inner →
      LiteralContainer value (.object members) (ch '{' :: (inner ++ [ch '}']))

/-- The text derives the tree of its literals. -/
def LiteralDerives : Nat → Ast → Bytes → Prop
  | 0, ast, text => LiteralScalar ast text
  | depth + 1, ast, text =>
      LiteralScalar ast text ∨ LiteralContainer (LiteralDerives depth) ast text

def LiteralTextOf (depth : Nat) (ast : Ast) (text : Bytes) : Prop :=
  ∃ left inner right, Blank left ∧ Blank right ∧ LiteralDerives depth ast inner ∧
    text = left ++ (inner ++ right)

/-! ## The two trees of a text -/

/-- The content of a literal. -/
def literalContent (body : Bytes) : Bytes :=
  ((copyString (body ++ [ch '"'])).map Prod.fst).getD []

/-- The content of a literal is what its escapes stand for. -/
theorem StringBody.literalContent_eq {body content : Bytes} (hbody : StringBody body content) :
    literalContent body = content := by
  rw [literalContent, copyString_append hbody]
  rfl

theorem IsLiteral.stringBody {body : Bytes} (hbody : IsLiteral body) :
    StringBody body (literalContent body) := by
  obtain ⟨content, hcontent⟩ := hbody
  rwa [hcontent.literalContent_eq]

section Image

variable {α β : Type}

/-- Items that are images of other items. -/
theorem Separated.map {item : α → Bytes → Prop} {other : β → Bytes → Prop} {f : α → β}
    (hitem : ∀ x text, item x text → other (f x) text) {xs : List α} {inner : Bytes}
    (hinner : Separated item xs inner) : Separated other (xs.map f) inner := by
  induction hinner with
  | one hleft hx hright => exact .one hleft (hitem _ _ hx) hright
  | cons hleft hx hright _ ih => exact .cons hleft (hitem _ _ hx) hright ih

/-- Items each of which is the image of some other item. -/
theorem Separated.exists_map {item : α → Bytes → Prop} {other : β → Bytes → Prop} {f : α → β}
    (hitem : ∀ y text, other y text → ∃ x, item x text ∧ f x = y) {ys : List β} {inner : Bytes}
    (hinner : Separated other ys inner) : ∃ xs, Separated item xs inner ∧ xs.map f = ys := by
  induction hinner with
  | one hleft hy hright =>
      obtain ⟨x, hx, rfl⟩ := hitem _ _ hy
      exact ⟨[x], .one hleft hx hright, rfl⟩
  | cons hleft hy hright _ ih =>
      obtain ⟨x, hx, rfl⟩ := hitem _ _ hy
      obtain ⟨xs, hxs, rfl⟩ := ih
      exact ⟨x :: xs, .cons hleft hx hright hxs, rfl⟩

end Image

/-- Reading the literals of a scalar gives a scalar of the grammar. -/
theorem LiteralScalar.derives {ast : Ast} {text : Bytes} (hscalar : LiteralScalar ast text) :
    Scalar (ast.mapStrings literalContent) text := by
  cases hscalar with
  | null => exact .null
  | isTrue => exact .isTrue
  | isFalse => exact .isFalse
  | string hbody => exact .string hbody.stringBody
  | number hnumber => exact .number hnumber

theorem LiteralDerives.derives {depth : Nat} {ast : Ast} {text : Bytes}
    (hast : LiteralDerives depth ast text) :
    Derives depth (ast.mapStrings literalContent) text := by
  induction depth generalizing ast text with
  | zero => exact LiteralScalar.derives hast
  | succ depth ih =>
      rcases hast with hscalar | hcontainer
      · exact .inl hscalar.derives
      · right
        cases hcontainer with
        | emptyArray hblank => exact .emptyArray hblank
        | array hinner =>
            have hvalue : ∀ ast text, LiteralDerives depth ast text →
                Derives depth (ast.mapStrings literalContent) text := fun _ _ => ih
            rw [Ast.mapStrings, mapElements_eq_map]
            exact .array (hinner.map hvalue)
        | emptyObject hblank => exact .emptyObject hblank
        | object hinner =>
            rw [Ast.mapStrings, mapMembers_eq_map]
            apply Container.object
            apply hinner.map
            rintro _ _ ⟨hbody, hleft, hright, hvalue⟩
            exact .mk hbody.stringBody hleft hright (ih hvalue)

/-- Conversely, a scalar was written with some literal. -/
theorem Scalar.exists_literal {ast : Ast} {text : Bytes} (hscalar : Scalar ast text) :
    ∃ literal, LiteralScalar literal text ∧ literal.mapStrings literalContent = ast := by
  cases hscalar with
  | null => exact ⟨_, .null, rfl⟩
  | isTrue => exact ⟨_, .isTrue, rfl⟩
  | isFalse => exact ⟨_, .isFalse, rfl⟩
  | @string body content hbody =>
      exact ⟨.string body, .string ⟨content, hbody⟩,
        congrArg Ast.string hbody.literalContent_eq⟩
  | number hnumber => exact ⟨_, .number hnumber, rfl⟩

/-- Every tree was written with some literals, and these read as the strings of the tree. -/
theorem Derives.exists_literal {depth : Nat} {ast : Ast} {text : Bytes}
    (hast : Derives depth ast text) :
    ∃ literal, LiteralDerives depth literal text ∧ literal.mapStrings literalContent = ast := by
  induction depth generalizing ast text with
  | zero => exact Scalar.exists_literal hast
  | succ depth ih =>
      rcases hast with hscalar | hcontainer
      · obtain ⟨literal, hliteral, rfl⟩ := hscalar.exists_literal
        exact ⟨literal, .inl hliteral, rfl⟩
      · cases hcontainer with
        | emptyArray hblank => exact ⟨.array [], .inr (.emptyArray hblank), rfl⟩
        | array hinner =>
            have hvalue : ∀ ast text, Derives depth ast text → ∃ literal,
                LiteralDerives depth literal text ∧ literal.mapStrings literalContent = ast :=
              fun _ _ => ih
            obtain ⟨literals, hliterals, rfl⟩ := hinner.exists_map hvalue
            refine ⟨.array literals, .inr (.array hliterals), ?_⟩
            rw [Ast.mapStrings, mapElements_eq_map]
        | emptyObject hblank => exact ⟨.object [], .inr (.emptyObject hblank), rfl⟩
        | object hinner =>
            have hmember : ∀ member text, Member (Derives depth) member text →
                ∃ literal, LiteralMember (LiteralDerives depth) literal text ∧
                  Prod.map literalContent (Ast.mapStrings literalContent) literal = member := by
              rintro _ _ (@⟨name, body, left, right, text, ast, hbody, hleft, hright, hvalue⟩)
              obtain ⟨literal, hliteral, rfl⟩ := ih hvalue
              refine ⟨(body, literal), .mk ⟨name, hbody⟩ hleft hright hliteral, ?_⟩
              rw [Prod.map_apply, hbody.literalContent_eq]
            obtain ⟨literals, hliterals, rfl⟩ := hinner.exists_map hmember
            refine ⟨.object literals, .inr (.object hliterals), ?_⟩
            rw [Ast.mapStrings, mapMembers_eq_map]

theorem LiteralTextOf.textOf {depth : Nat} {ast : Ast} {text : Bytes}
    (htext : LiteralTextOf depth ast text) : TextOf depth (ast.mapStrings literalContent) text := by
  obtain ⟨left, inner, right, hleft, hright, hinner, rfl⟩ := htext
  exact ⟨left, inner, right, hleft, hright, hinner.derives, rfl⟩

theorem TextOf.exists_literal {depth : Nat} {ast : Ast} {text : Bytes}
    (htext : TextOf depth ast text) :
    ∃ literal, LiteralTextOf depth literal text ∧ literal.mapStrings literalContent = ast := by
  obtain ⟨left, inner, right, hleft, hright, hinner, rfl⟩ := htext
  obtain ⟨literal, hliteral, rfl⟩ := hinner.exists_literal
  exact ⟨literal, ⟨left, inner, right, hleft, hright, hliteral, rfl⟩, rfl⟩

/-! ## Where the trees stand -/

/-- Induction over a tree, with the hypothesis for each of the trees it holds. -/
@[elab_as_elim]
theorem Ast.induct {motive : Ast → Prop} (null : motive .null)
    (boolean : ∀ value, motive (.boolean value)) (string : ∀ content, motive (.string content))
    (number : ∀ text, motive (.number text))
    (array : ∀ elements, (∀ element ∈ elements, motive element) → motive (.array elements))
    (object : ∀ members, (∀ member ∈ members, motive member.2) → motive (.object members)) :
    ∀ ast, motive ast
  | .null => null
  | .boolean value => boolean value
  | .string content => string content
  | .number text => number text
  | .array elements => array elements fun element _helement =>
      Ast.induct null boolean string number array object element
  | .object members => object members fun member _hmember =>
      Ast.induct null boolean string number array object member.2
termination_by ast => sizeOf ast
decreasing_by
  · have hsmaller := List.sizeOf_lt_of_mem _helement
    simp only [Ast.array.sizeOf_spec]
    omega
  · obtain ⟨name, value⟩ := member
    have hsmaller := List.sizeOf_lt_of_mem _hmember
    simp only [Prod.mk.sizeOf_spec, Ast.object.sizeOf_spec] at hsmaller ⊢
    omega

mutual

/-- A tree and all the trees inside it. -/
def Ast.subtrees : Ast → List Ast
  | .null => [.null]
  | .boolean value => [.boolean value]
  | .string content => [.string content]
  | .number text => [.number text]
  | .array elements => .array elements :: elementSubtrees elements
  | .object members => .object members :: memberSubtrees members

def elementSubtrees : List Ast → List Ast
  | [] => []
  | element :: rest => element.subtrees ++ elementSubtrees rest

def memberSubtrees : List (Bytes × Ast) → List Ast
  | [] => []
  | (_, value) :: rest => value.subtrees ++ memberSubtrees rest

end

theorem mem_elementSubtrees {tree : Ast} {elements : List Ast} :
    tree ∈ elementSubtrees elements ↔ ∃ element ∈ elements, tree ∈ element.subtrees := by
  induction elements with
  | nil => simp [elementSubtrees]
  | cons element rest ih => simp [elementSubtrees, ih]

theorem mem_memberSubtrees {tree : Ast} {members : List (Bytes × Ast)} :
    tree ∈ memberSubtrees members ↔ ∃ member ∈ members, tree ∈ member.2.subtrees := by
  induction members with
  | nil => simp [memberSubtrees]
  | cons member rest ih => simp [memberSubtrees, ih]

theorem mem_subtrees_array {tree element : Ast} {elements : List Ast}
    (helement : element ∈ elements) (htree : tree ∈ element.subtrees) :
    tree ∈ (Ast.array elements).subtrees := by
  rw [Ast.subtrees]
  exact List.mem_cons_of_mem _ (mem_elementSubtrees.mpr ⟨element, helement, htree⟩)

theorem mem_subtrees_object {tree : Ast} {member : Bytes × Ast} {members : List (Bytes × Ast)}
    (hmember : member ∈ members) (htree : tree ∈ member.2.subtrees) :
    tree ∈ (Ast.object members).subtrees := by
  rw [Ast.subtrees]
  exact List.mem_cons_of_mem _ (mem_memberSubtrees.mpr ⟨member, hmember, htree⟩)

/-- The values inside a denoted value are those that the trees inside the tree denote. -/
theorem mem_subvalues_denote {δ : Type} [CDouble δ] {ast : Ast} {value : JsonValue δ} :
    value ∈ ast.denote.subvalues ↔ ∃ tree ∈ ast.subtrees, tree.denote = value := by
  induction ast using Ast.induct with
  | array elements ih =>
      simp only [Ast.denote, denoteElements_eq_map, mem_subvalues_array, List.mem_map,
        Ast.subtrees, List.mem_cons, mem_elementSubtrees]
      constructor
      · rintro (rfl | ⟨_, ⟨element, helement, rfl⟩, hvalue⟩)
        · exact ⟨.array elements, .inl rfl, by rw [Ast.denote, denoteElements_eq_map]⟩
        · obtain ⟨tree, htree, hdenote⟩ := (ih element helement).mp hvalue
          exact ⟨tree, .inr ⟨element, helement, htree⟩, hdenote⟩
      · rintro ⟨tree, rfl | ⟨element, helement, htree⟩, rfl⟩
        · exact .inl (by rw [Ast.denote, denoteElements_eq_map])
        · exact .inr ⟨_, ⟨element, helement, rfl⟩, (ih element helement).mpr ⟨tree, htree, rfl⟩⟩
  | object members ih =>
      simp only [Ast.denote, mem_subvalues_object, (objectOf_perm _).mem_iff,
        denoteMembers_eq_map, List.mem_map, Ast.subtrees, List.mem_cons, mem_memberSubtrees]
      constructor
      · rintro (rfl | ⟨_, ⟨member, hmember, rfl⟩, hvalue⟩)
        · exact ⟨.object members, .inl rfl, by rw [Ast.denote, denoteMembers_eq_map]⟩
        · obtain ⟨tree, htree, hdenote⟩ := (ih member hmember).mp hvalue
          exact ⟨tree, .inr ⟨member, hmember, htree⟩, hdenote⟩
      · rintro ⟨tree, rfl | ⟨member, hmember, htree⟩, rfl⟩
        · exact .inl (by rw [Ast.denote, denoteMembers_eq_map])
        · exact .inr ⟨_, ⟨member, hmember, rfl⟩, (ih member hmember).mpr ⟨tree, htree, rfl⟩⟩
  | number text =>
      rw [Ast.denote, numberValue]
      split
      next hint =>
        simp [JsonValue.subvalues, Ast.subtrees, Ast.denote, numberValue, hint, eq_comm]
      next hint =>
        simp [JsonValue.subvalues, Ast.subtrees, Ast.denote, numberValue, hint, eq_comm]
  | null => simp [JsonValue.subvalues, Ast.subtrees, Ast.denote, eq_comm]
  | boolean bit => simp [JsonValue.subvalues, Ast.subtrees, Ast.denote, eq_comm]
  | string content => simp [JsonValue.subvalues, Ast.subtrees, Ast.denote, eq_comm]

theorem infix_bracketed {first last : Byte} {inner : Bytes} :
    inner <:+: first :: (inner ++ [last]) := ⟨[first], [last], rfl⟩

theorem infix_member {body left right text : Bytes} :
    text <:+: ch '"' :: (body ++ ch '"' :: (left ++ ch ':' :: (right ++ text))) :=
  ⟨ch '"' :: (body ++ ch '"' :: (left ++ ch ':' :: right)), [], by simp⟩

/-- Each item of a container stands somewhere in its text. -/
theorem Separated.mem {α : Type} {item : α → Bytes → Prop} {xs : List α} {inner : Bytes}
    (hinner : Separated item xs inner) {x : α} (hx : x ∈ xs) :
    ∃ text, item x text ∧ text <:+: inner := by
  induction hinner with
  | @one y left text right hleft hy hright =>
      obtain rfl := List.mem_singleton.mp hx
      exact ⟨text, hy, left, right, by simp⟩
  | @cons y ys left text right more hleft hy hright _ ih =>
      rcases List.mem_cons.mp hx with rfl | hmore
      · exact ⟨text, hy, left, right ++ ch ',' :: more, by simp⟩
      · obtain ⟨text', hitem, hinside⟩ := ih hmore
        refine ⟨text', hitem, hinside.trans ⟨left ++ (text ++ (right ++ [ch ','])), [], ?_⟩⟩
        simp

/-- There is a comma between any two items. -/
theorem Separated.length_le {α : Type} {item : α → Bytes → Prop} {xs : List α} {inner : Bytes}
    (hinner : Separated item xs inner) : xs.length ≤ inner.length + 1 := by
  induction hinner with
  | one _ _ _ => simp
  | cons _ _ _ _ ih =>
      simp only [List.length_cons, List.length_append]
      omega

/-- A tree inside a tree has a text inside its text. -/
theorem Derives.subtree {depth : Nat} {ast : Ast} {text : Bytes} (hast : Derives depth ast text)
    {tree : Ast} (htree : tree ∈ ast.subtrees) :
    ∃ depth part, Derives depth tree part ∧ part <:+: text := by
  have hself : ∀ {depth : Nat} {ast : Ast} {text : Bytes}, Derives depth ast text → tree = ast →
      ∃ depth part, Derives depth tree part ∧ part <:+: text := by
    rintro depth ast text hast rfl
    exact ⟨depth, text, hast, List.infix_rfl⟩
  have hscalar : ∀ {ast : Ast} {text : Bytes}, Scalar ast text → tree ∈ ast.subtrees →
      tree = ast := by
    intro ast text hscalar htree
    cases hscalar <;> simpa [Ast.subtrees] using htree
  induction depth generalizing ast text with
  | zero => exact @hself 0 _ _ hast (hscalar hast htree)
  | succ depth ih =>
      have hwhole := hast
      rcases hast with hast | hcontainer
      · exact hself hwhole (hscalar hast htree)
      · cases hcontainer with
        | emptyArray _ => exact hself hwhole (by simpa [Ast.subtrees, elementSubtrees] using htree)
        | emptyObject _ => exact hself hwhole (by simpa [Ast.subtrees, memberSubtrees] using htree)
        | array hinner =>
            rw [Ast.subtrees, List.mem_cons, mem_elementSubtrees] at htree
            rcases htree with rfl | ⟨element, helement, htree⟩
            · exact hself hwhole rfl
            · obtain ⟨text, hvalue, htext⟩ := hinner.mem helement
              obtain ⟨depth, part, hpart, hsmall⟩ := ih hvalue htree
              exact ⟨depth, part, hpart, (hsmall.trans htext).trans infix_bracketed⟩
        | object hinner =>
            rw [Ast.subtrees, List.mem_cons, mem_memberSubtrees] at htree
            rcases htree with rfl | ⟨member, hmember, htree⟩
            · exact hself hwhole rfl
            · obtain ⟨_, @⟨name, body, left, right, text, ast, hname, hleft, hright, hvalue⟩,
                htext⟩ := hinner.mem hmember
              obtain ⟨depth, part, hpart, hsmall⟩ := ih hvalue htree
              exact ⟨depth, part, hpart,
                (hsmall.trans infix_member).trans (htext.trans infix_bracketed)⟩

/-- An object has fewer members than its text has bytes. -/
theorem Derives.members_le {depth : Nat} {members : List (Bytes × Ast)} {text : Bytes}
    (hast : Derives depth (.object members) text) : members.length ≤ text.length := by
  cases depth with
  | zero => cases hast
  | succ depth =>
      rcases hast with hast | hcontainer
      · cases hast
      · cases hcontainer with
        | emptyObject _ => exact Nat.zero_le _
        | object hinner =>
            have hle := hinner.length_le
            simp only [List.length_cons, List.length_append, List.length_nil]
            omega

theorem Derives.numberText {depth : Nat} {number text : Bytes}
    (hast : Derives depth (.number number) text) : NumberText number := by
  cases depth with
  | zero =>
      cases hast with
      | number hnumber => exact hnumber
  | succ depth =>
      rcases hast with hast | hcontainer
      · cases hast with
        | number hnumber => exact hnumber
      · cases hcontainer

/-- A count of members fits an `unsigned int`. -/
theorem TextOf.members_lt {s : Bytes} {size : Int32} {depth : Nat} {ast : Ast} (hfree : NulFree s)
    (hsize : size.toInt = strlen s) (htext : TextOf depth ast s) {members : List (Bytes × Ast)}
    (hmembers : .object members ∈ ast.subtrees) : members.length < 2 ^ 32 := by
  obtain ⟨left, inner, right, -, -, hast, rfl⟩ := htext
  obtain ⟨depth, part, hpart, hinside⟩ := hast.subtree hmembers
  have hle := hpart.members_le
  have hshort := hinside.length_le
  have hrange := size.toInt_lt
  rw [hsize, strlen_of_nulFree hfree] at hrange
  simp only [List.length_append] at hrange
  omega

/-! ## Where the literals stand -/

theorem mem_elementStrings {body : Bytes} {elements : List Ast} :
    body ∈ elementStrings elements ↔ ∃ element ∈ elements, body ∈ element.strings := by
  induction elements with
  | nil => simp [elementStrings]
  | cons element rest ih => simp [elementStrings, ih]

theorem mem_memberStrings {body : Bytes} {members : List (Bytes × Ast)} :
    body ∈ memberStrings members ↔
      ∃ member ∈ members, body = member.1 ∨ body ∈ member.2.strings := by
  induction members with
  | nil => simp [memberStrings]
  | cons member rest ih => simp [memberStrings, ih, or_assoc]

/-- A literal of a tree stands in its text, between quotes. -/
theorem LiteralDerives.mem_strings {depth : Nat} {ast : Ast} {text : Bytes}
    (hast : LiteralDerives depth ast text) {body : Bytes} (hbody : body ∈ ast.strings) :
    IsLiteral body ∧ ch '"' :: (body ++ [ch '"']) <:+: text := by
  have hscalar : ∀ {ast : Ast} {text : Bytes}, LiteralScalar ast text → body ∈ ast.strings →
      IsLiteral body ∧ ch '"' :: (body ++ [ch '"']) <:+: text := by
    intro ast text hscalar hbody
    cases hscalar with
    | string hliteral =>
        obtain rfl := List.mem_singleton.mp hbody
        exact ⟨hliteral, List.infix_rfl⟩
    | _ => simp [Ast.strings] at hbody
  induction depth generalizing ast text with
  | zero => exact hscalar hast hbody
  | succ depth ih =>
      rcases hast with hast | hcontainer
      · exact hscalar hast hbody
      · cases hcontainer with
        | emptyArray hblank => simp [Ast.strings, elementStrings] at hbody
        | emptyObject hblank => simp [Ast.strings, memberStrings] at hbody
        | array hinner =>
            obtain ⟨element, helement, hbody⟩ := mem_elementStrings.mp hbody
            obtain ⟨text, hvalue, htext⟩ := hinner.mem helement
            obtain ⟨hliteral, hquoted⟩ := ih hvalue hbody
            exact ⟨hliteral, (hquoted.trans htext).trans infix_bracketed⟩
        | object hinner =>
            obtain ⟨member, hmember, hbody⟩ := mem_memberStrings.mp hbody
            obtain ⟨text, hvalue, htext⟩ := hinner.mem hmember
            suffices hquoted : IsLiteral body ∧ ch '"' :: (body ++ [ch '"']) <:+: text from
              ⟨hquoted.1, (hquoted.2.trans htext).trans infix_bracketed⟩
            obtain @⟨name, left, right, text, ast, hname, hleft, hright, hvalue⟩ := hvalue
            rcases hbody with rfl | hbody
            · exact ⟨hname, [], left ++ ch ':' :: (right ++ text), by simp⟩
            · obtain ⟨hliteral, hquoted⟩ := ih hvalue hbody
              exact ⟨hliteral, hquoted.trans infix_member⟩

/-- Every string of the tree stands in the text between its quotation marks. -/
theorem LiteralTextOf.mem_strings {depth : Nat} {ast : Ast} {text : Bytes}
    (htext : LiteralTextOf depth ast text) {body : Bytes} (hbody : body ∈ ast.strings) :
    IsLiteral body ∧ ch '"' :: (body ++ [ch '"']) <:+: text := by
  obtain ⟨left, inner, right, hleft, hright, hinner, rfl⟩ := htext
  obtain ⟨hliteral, hquoted⟩ := hinner.mem_strings hbody
  exact ⟨hliteral, hquoted.trans ⟨left, right, by simp⟩⟩

end DbSlayer.Json
