import DbSlayer.Json.Numbers
import DbSlayer.Json.Strings

/-! # The member loop of a container

Arrays and objects share one loop over comma-separated members. Its two
directions are proved once, for a step that reads one member: what it accepts
is a member, and every member in front of a delimiter is accepted.
-/

namespace DbSlayer.Json

open Foundation

variable {α σ : Type} {item : α → Bytes → Prop} {meaning : σ → α → σ}
variable {step : σ → Decoder σ} {close : Byte} {depth : Nat}

/-- What may follow a member inside its container. -/
inductive Tail (item : α → Bytes → Prop) : List α → Bytes → Prop
  | done {right : Bytes} : Blank right → Tail item [] right
  | more {xs : List α} {right inner : Bytes} : Blank right → Separated item xs inner →
      Tail item xs (right ++ ch ',' :: inner)

/-- A first item and a tail of items make up the inside of a container. -/
theorem Separated.of_tail {x : α} {xs : List α} {left text tail : Bytes} (hleft : Blank left)
    (hitem : item x text) (htail : Tail item xs tail) :
    Separated item (x :: xs) (left ++ (text ++ tail)) := by
  cases htail with
  | done hright => exact .one hleft hitem hright
  | more hright hmore => exact .cons hleft hitem hright hmore

/-- A container that is not empty has a first item and a tail. -/
theorem Separated.exists_tail {xs : List α} {inner : Bytes} (hinner : Separated item xs inner) :
    ∃ x rest left text tail, xs = x :: rest ∧ inner = left ++ (text ++ tail) ∧ Blank left ∧
      item x text ∧ Tail item rest tail := by
  cases hinner with
  | one hleft hitem hright => exact ⟨_, _, _, _, _, rfl, rfl, hleft, hitem, .done hright⟩
  | cons hleft hitem hright hmore =>
      exact ⟨_, _, _, _, _, rfl, rfl, hleft, hitem, .more hright hmore⟩

theorem isspace_stops {c : Byte} : isspace c = true → isNumberByte c = false :=
  forall_byte (p := fun c => isspace c = true → isNumberByte c = false) (by decide +kernel) c

theorem blank_stops {blank rest : Bytes} (hblank : Blank blank) (hrest : Stops isNumberByte rest) :
    Stops isNumberByte (blank ++ rest) := by
  cases blank with
  | nil => exact hrest
  | cons c blank => exact stops_cons.mpr (isspace_stops (hblank c List.mem_cons_self))

/-- Whatever follows a member ends a number. -/
theorem Tail.stops {xs : List α} {tail rest : Bytes} (htail : Tail item xs tail)
    (hclose : isNumberByte close = false) : Stops isNumberByte (tail ++ close :: rest) := by
  cases htail with
  | done hright => exact blank_stops hright (stops_cons.mpr hclose)
  | more hright hmore =>
      rw [List.append_assoc]
      exact blank_stops hright (stops_cons.mpr (by decide))

/-- The members a tail adds are fewer than its bytes. -/
theorem Tail.length_le {xs : List α} {tail : Bytes} (htail : Tail item xs tail) :
    xs.length ≤ tail.length := by
  have hseparated : ∀ {xs : List α} {inner : Bytes}, Separated item xs inner →
      xs.length ≤ inner.length + 1 := by
    intro xs inner hinner
    induction hinner with
    | one _ _ _ => simp
    | cons _ _ _ _ ih =>
        simp only [List.length_cons, List.length_append]
        omega
  cases htail with
  | done _ => simp
  | more _ hmore =>
      have hle := hseparated hmore
      simp only [List.length_append, List.length_cons]
      omega

theorem JsonString.skipSpace_append {left rest : Bytes} (hleft : Blank left)
    (hrest : Stops isspace rest) :
    JsonString.skipSpace ⟨left ++ rest, depth⟩ = ⟨rest, depth⟩ := by
  rw [JsonString.skipSpace, dropWhile_append_stops hleft hrest]

theorem JsonString.exists_skipSpace (s : Bytes) (depth : Nat) :
    ∃ left rest, s = left ++ rest ∧ Blank left ∧
      JsonString.skipSpace ⟨s, depth⟩ = ⟨rest, depth⟩ := by
  obtain ⟨left, rest, rfl, hleft, hrest⟩ := exists_run isspace s
  exact ⟨left, rest, rfl, hleft, skipSpace_append hleft hrest⟩

/-! ## Soundness -/

/-- The step reads one item and folds its meaning into the members, unless an
exponent mark was left behind. -/
def StepSound (item : α → Bytes → Prop) (meaning : σ → α → σ) (step : σ → Decoder σ)
    (depth : Nat) : Prop :=
  ∀ members s members' after, NulFree s → step members ⟨s, depth⟩ = some (members', after) →
    after.depth = depth ∧ ∃ left text x, s = left ++ (text ++ after.offset) ∧ Blank left ∧
      item x text ∧ (Stops isNumberByte after.offset → members' = meaning members x)

/-- What the loop over the rest of a container accepts is a tail of items, by induction on the
fuel. -/
theorem decodeRest_sound (hstep : StepSound item meaning step depth)
    (hclose : isNumberByte close = false) {fuel : Nat} {members members' : σ} {s : Bytes}
    {after : JsonString} (hfree : NulFree s)
    (hrest : decodeRest close step fuel members ⟨s, depth⟩ = some (members', after)) :
    after.depth = depth ∧ ∃ xs tail, s = tail ++ close :: after.offset ∧ Tail item xs tail ∧
      members' = xs.foldl meaning members := by
  induction fuel generalizing members s with
  | zero => simp [decodeRest] at hrest
  | succ fuel ih =>
      obtain ⟨right, s', rfl, hright, hskip⟩ := JsonString.exists_skipSpace s depth
      simp only [decodeRest, hskip] at hrest
      split at hrest
      next => simp at hrest
      next c rest hcons =>
        split at hrest
        next hc =>
          -- The closing bracket stands right behind the last member.
          simp only [Option.some.injEq, Prod.mk.injEq] at hrest
          obtain ⟨rfl, rfl⟩ := hrest
          exact ⟨rfl, [], [], by simp [hcons, hc], .done (by simp [Blank]), rfl⟩
        next hc =>
          split at hrest
          next => simp at hrest
          next d rest' =>
            split at hrest
            next hd =>
              simp only [Option.some.injEq, Prod.mk.injEq] at hrest
              obtain ⟨rfl, rfl⟩ := hrest
              exact ⟨rfl, [], right, by simp [hd], .done hright, rfl⟩
            next hd =>
              split at hrest
              next hcomma =>
                obtain rfl := hcomma
                simp only [Option.bind_eq_bind, Option.bind_eq_some_iff] at hrest
                obtain ⟨⟨members₁, after₁⟩, hone, hrest⟩ := hrest
                have hfree' : NulFree rest' := by
                  simp only [nulFree_append, nulFree_cons] at hfree
                  exact hfree.2.2
                obtain ⟨hdepth, left, text, x, rfl, hleft, hitem, hmeaning⟩ :=
                  hstep members rest' members₁ after₁ hfree' hone
                obtain ⟨s₁, depth₁⟩ := after₁
                simp only at hdepth hmeaning
                subst hdepth
                simp only [nulFree_append] at hfree'
                obtain ⟨hdepth, xs, tail, rfl, htail, rfl⟩ := ih hfree'.2.2 hrest
                refine ⟨hdepth, x :: xs, right ++ ch ',' :: (left ++ (text ++ tail)), by simp,
                  .more hright (.of_tail hleft hitem htail), ?_⟩
                rw [hmeaning (htail.stops hclose), List.foldl_cons]
              next => simp at hrest

/-- What the decoder of containers accepts is a container of the grammar, empty or with a
first item and a tail. -/
theorem decodeContainer_sound {δ : Type} {empty : σ} {finish : σ → JsonValue δ}
    (hstep : StepSound item meaning step depth) (hclose : isNumberByte close = false)
    {c : Byte} {s : Bytes} {value : JsonValue δ} {after : JsonString} (hfree : NulFree s)
    (hdecode : decodeContainer close step empty finish ⟨c :: s, depth⟩ = some (value, after)) :
    after.depth = depth ∧ ∃ xs inner, s = inner ++ close :: after.offset ∧
      (xs = [] ∧ Blank inner ∨ Separated item xs inner) ∧
      value = finish (xs.foldl meaning empty) := by
  obtain ⟨left, s', rfl, hleft, hskip⟩ := JsonString.exists_skipSpace s depth
  simp only [decodeContainer, List.drop_succ_cons, List.drop_zero, hskip] at hdecode
  rw [nulFree_append] at hfree
  split at hdecode
  next => simp at hdecode
  next d rest =>
    split at hdecode
    next hd =>
      simp only [Option.some.injEq, Prod.mk.injEq] at hdecode
      obtain ⟨rfl, rfl⟩ := hdecode
      exact ⟨rfl, [], left, by simp [hd], .inl ⟨rfl, hleft⟩, rfl⟩
    next hd =>
      simp only [Option.bind_eq_bind, Option.bind_eq_some_iff] at hdecode
      obtain ⟨⟨members, after₁⟩, hone, ⟨members', after₂⟩, hrest, hresult⟩ := hdecode
      simp only [Option.pure_def, Option.some.injEq, Prod.mk.injEq] at hresult
      obtain ⟨rfl, rfl⟩ := hresult
      obtain ⟨hdepth, left', text, x, hsplit, hleft', hitem, hmeaning⟩ :=
        hstep empty (d :: rest) members after₁ hfree.2 hone
      obtain ⟨s₁, depth₁⟩ := after₁
      simp only at hdepth hmeaning hsplit
      subst hdepth
      rw [hsplit] at hfree ⊢
      simp only [nulFree_append] at hfree
      obtain ⟨hdepth, xs, tail, rfl, htail, rfl⟩ := decodeRest_sound hstep hclose hfree.2.2.2 hrest
      refine ⟨hdepth, x :: xs, (left ++ left') ++ (text ++ tail), by simp,
        .inr (.of_tail ?_ hitem htail), ?_⟩
      · intro b hb
        exact (List.mem_append.mp hb).elim (hleft b) (hleft' b)
      · rw [hmeaning (htail.stops hclose), List.foldl_cons]

/-! ## Completeness -/

/-- The step accepts every item that stands in front of a delimiter. -/
def StepComplete (item : α → Bytes → Prop) (meaning : σ → α → σ) (step : σ → Decoder σ)
    (depth : Nat) : Prop :=
  ∀ members left text x rest, Blank left → item x text → Stops isNumberByte rest →
    step members ⟨left ++ (text ++ rest), depth⟩ = some (meaning members x, ⟨rest, depth⟩)

/-- A byte that ends a container. -/
def Closes (close : Byte) : Prop :=
  isNumberByte close = false ∧ isspace close = false ∧ close ≠ ch ','

/-- A tail of items is accepted when there is fuel for each of them, by induction on the tail. -/
theorem decodeRest_complete (hstep : StepComplete item meaning step depth) (hclose : Closes close)
    {xs : List α} {tail : Bytes} (htail : Tail item xs tail) {fuel : Nat} (hfuel : xs.length < fuel)
    (members : σ) (rest : Bytes) :
    decodeRest close step fuel members ⟨tail ++ close :: rest, depth⟩ =
      some (xs.foldl meaning members, ⟨rest, depth⟩) := by
  obtain ⟨hnumber, hspace, hcomma⟩ := hclose
  have hblank : ∀ {c : Byte} {blank : Bytes}, Blank (c :: blank) → c ≠ close := by
    rintro c blank hcons rfl
    simp [hcons c List.mem_cons_self] at hspace
  induction xs generalizing tail fuel members with
  | nil =>
      obtain ⟨fuel, rfl⟩ : ∃ n, fuel = n + 1 := ⟨fuel - 1, by simp at hfuel; omega⟩
      cases htail with
      | done hright =>
          rw [decodeRest, JsonString.skipSpace_append hright (stops_cons.mpr hspace)]
          cases tail with
          | nil => simp
          | cons c tail => simp [hblank hright]
      | more hright hmore =>
          obtain ⟨_, _, _, _, _, habsurd, _⟩ := hmore.exists_tail
          simp at habsurd
  | cons x xs ih =>
      obtain ⟨fuel, rfl⟩ : ∃ n, fuel = n + 1 := ⟨fuel - 1, by simp at hfuel; omega⟩
      cases htail with
      | @more _ right inner hright hmore =>
          obtain ⟨x', xs', left, text, tail, heq, rfl, hleft, hitem, htail⟩ := hmore.exists_tail
          obtain ⟨rfl, rfl⟩ : x = x' ∧ xs = xs' := by simpa using heq
          have hone := hstep members left text x (tail ++ close :: rest) hleft hitem
            (htail.stops hnumber)
          have hcomma' : Stops isspace (ch ',' :: (left ++ (text ++ (tail ++ close :: rest)))) :=
            stops_cons.mpr (by decide)
          have hne : ch ',' ≠ close := fun h => hcomma h.symm
          have hfuel' : xs.length < fuel := by simpa using hfuel
          have hnext := ih htail hfuel' (meaning members x)
          have hshape : right ++ ch ',' :: (left ++ (text ++ tail)) ++ close :: rest =
              right ++ ch ',' :: (left ++ (text ++ (tail ++ close :: rest))) := by simp
          rw [hshape, decodeRest, JsonString.skipSpace_append hright hcomma']
          simp only [if_neg hne, if_true, hone, Option.bind_eq_bind, Option.bind_some, hnext,
            List.foldl_cons]
          cases right with
          | nil => simp [hne]
          | cons c right => simp [hblank hright]

theorem decodeContainer_complete {δ : Type} {empty : σ} {finish : σ → JsonValue δ}
    (hstep : StepComplete item meaning step depth) (hclose : Closes close)
    (hfirst : ∀ x text, item x text → ∃ c rest, text = c :: rest ∧ isspace c = false ∧ c ≠ close)
    {xs : List α} {inner : Bytes} (hinner : Separated item xs inner) (c : Byte) (rest : Bytes) :
    decodeContainer close step empty finish ⟨c :: (inner ++ close :: rest), depth⟩ =
      some (finish (xs.foldl meaning empty), ⟨rest, depth⟩) := by
  obtain ⟨x, xs, left, text, tail, rfl, rfl, hleft, hitem, htail⟩ := hinner.exists_tail
  obtain ⟨d, text, rfl, hspace, hd⟩ := hfirst x text hitem
  have hstops : Stops isspace (d :: (text ++ (tail ++ close :: rest))) := stops_cons.mpr hspace
  have hone := hstep empty [] (d :: text) x (tail ++ close :: rest) (by simp [Blank]) hitem
    (htail.stops hclose.1)
  have hfuel : xs.length < (tail ++ close :: rest).length + 1 := by
    have hle := htail.length_le
    simp only [List.length_append]
    omega
  have hloop := decodeRest_complete hstep hclose htail hfuel (meaning empty x) rest
  have hshape : left ++ (d :: text ++ tail) ++ close :: rest =
      left ++ d :: (text ++ (tail ++ close :: rest)) := by simp
  rw [hshape]
  simp only [decodeContainer, List.drop_succ_cons, List.drop_zero,
    JsonString.skipSpace_append hleft hstops, if_neg hd]
  simp only [List.nil_append, List.cons_append] at hone
  rw [hone]
  simp only [Option.bind_eq_bind, Option.bind_some, hloop, Option.pure_def, List.foldl_cons]

theorem decodeContainer_empty {δ : Type} {empty : σ} {finish : σ → JsonValue δ}
    (hclose : Closes close) {blank : Bytes} (hblank : Blank blank) (c : Byte) (rest : Bytes) :
    decodeContainer close step empty finish ⟨c :: (blank ++ close :: rest), depth⟩ =
      some (finish empty, ⟨rest, depth⟩) := by
  have hstops : Stops isspace (close :: rest) := stops_cons.mpr hclose.2.1
  simp [decodeContainer, JsonString.skipSpace_append hblank hstops]

end DbSlayer.Json
