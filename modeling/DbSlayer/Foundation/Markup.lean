import Mathlib.Data.List.Basic

/-! # Markup

Texts of nested elements and characters. A character stands for itself or for a
reference, and an element stands between a tag that opens it and one that closes
it. No character that stands for itself starts a tag or a reference, so a text
has at most one reading.
-/

namespace Foundation

/-- The signs of a markup language, the references it knows and the names it allows. -/
structure Markup (α : Type) where
  lt : α
  gt : α
  slash : α
  amp : α
  semicolon : α
  /-- The characters that stand for themselves. -/
  plain : α → Prop
  reference : List α → Option α
  named : List α → Prop
  lt_not_plain : ¬ plain lt
  amp_not_plain : ¬ plain amp
  amp_ne_lt : amp ≠ lt
  semicolon_not_mem : ∀ {name c}, reference name = some c → semicolon ∉ name
  gt_not_mem : ∀ {name}, named name → gt ∉ name
  named_head : ∀ {name}, named name → ∃ c rest, name = c :: rest ∧ c ≠ slash

/-- A piece of content: a character, or an element with its own content. -/
inductive Node (α : Type) where
  | char (c : α)
  | element (name : List α) (children : List (Node α))

namespace Markup

variable {α : Type} (markup : Markup α)

/-- The tag that opens an element. -/
def openTag (name : List α) : List α := markup.lt :: (name ++ [markup.gt])

/-- The tag that closes an element. -/
def closeTag (name : List α) : List α := markup.lt :: markup.slash :: (name ++ [markup.gt])

/-- The text is well formed and has these nodes, one after the other. -/
inductive Content : List (Node α) → List α → Prop
  | nil : Content [] []
  | plain {c : α} {nodes : List (Node α)} {text : List α} : markup.plain c →
      Content nodes text → Content (.char c :: nodes) (c :: text)
  | reference {name : List α} {c : α} {nodes : List (Node α)} {text : List α} :
      markup.reference name = some c → Content nodes text →
      Content (.char c :: nodes) (markup.amp :: (name ++ markup.semicolon :: text))
  | element {name : List α} {children nodes : List (Node α)} {inner text : List α} :
      markup.named name → Content children inner → Content nodes text →
      Content (.element name children :: nodes)
        (markup.openTag name ++ (inner ++ (markup.closeTag name ++ text)))

variable {markup}

/-- An element by itself. -/
theorem Content.single {name : List α} {children : List (Node α)} {inner : List α}
    (hname : markup.named name) (hchildren : markup.Content children inner) :
    markup.Content [.element name children]
      (markup.openTag name ++ (inner ++ markup.closeTag name)) := by
  have hsingle := Content.element hname hchildren .nil
  rwa [List.append_nil] at hsingle

/-- Characters that stand for themselves. -/
theorem content_chars {text : List α} (htext : ∀ c ∈ text, markup.plain c) :
    markup.Content (text.map .char) text := by
  induction text with
  | nil => exact .nil
  | cons c rest ih =>
      exact .plain (htext c List.mem_cons_self) (ih fun d hd => htext d (List.mem_cons_of_mem c hd))

/-! ## The one reading of a text -/

/-- Two texts that are cut at the first place of a letter are cut alike. -/
theorem append_cons_inj {a : α} {first second rest more : List α} (hfirst : a ∉ first)
    (hsecond : a ∉ second) (htext : first ++ a :: rest = second ++ a :: more) :
    first = second ∧ rest = more := by
  induction first generalizing second with
  | nil =>
      cases second with
      | nil => exact ⟨rfl, (List.cons.inj htext).2⟩
      | cons c second =>
          have hc : a = c := (List.cons.inj htext).1
          exact absurd (hc ▸ List.mem_cons_self) hsecond
  | cons c first ih =>
      cases second with
      | nil =>
          have hc : c = a := (List.cons.inj htext).1
          exact absurd (hc ▸ List.mem_cons_self) hfirst
      | cons d second =>
          obtain ⟨rfl, htext'⟩ := List.cons.inj htext
          obtain ⟨rfl, rfl⟩ := ih (fun hmem => hfirst (List.mem_cons_of_mem c hmem))
            (fun hmem => hsecond (List.mem_cons_of_mem c hmem)) htext'
          exact ⟨rfl, rfl⟩

/-- What may follow content: nothing, or a closing tag. -/
def Follows (markup : Markup α) (rest : List α) : Prop :=
  rest = [] ∨ ∃ more, rest = markup.lt :: markup.slash :: more

theorem follows_closeTag (name rest : List α) :
    markup.Follows (markup.closeTag name ++ rest) := .inr ⟨name ++ [markup.gt] ++ rest, rfl⟩

/-- Content ends where a closing tag begins. -/
theorem Content.not_follows {node : Node α} {nodes : List (Node α)} {text rest : List α}
    (hnodes : markup.Content (node :: nodes) text) (hfollows : markup.Follows (text ++ rest)) :
    False := by
  rcases hfollows with hnil | ⟨more, hmore⟩
  · cases hnodes with
    | plain _ _ => simp at hnil
    | reference _ _ => simp at hnil
    | element _ _ _ => simp [openTag] at hnil
  · cases hnodes with
    | plain hc _ =>
        rw [List.cons_append, List.cons.injEq] at hmore
        exact markup.lt_not_plain (hmore.1 ▸ hc)
    | reference _ _ =>
        rw [List.cons_append, List.cons.injEq] at hmore
        exact markup.amp_ne_lt hmore.1
    | element hname _ _ =>
        obtain ⟨c, name, rfl, hslash⟩ := markup.named_head hname
        simp only [openTag, List.cons_append, List.cons.injEq] at hmore
        exact hslash hmore.2.1

/-- Two readings of one text, up to what follows them, are the same. -/
theorem Content.unique_prefix {nodes others : List (Node α)} {text more rest tail : List α}
    (hnodes : markup.Content nodes text) (hothers : markup.Content others more)
    (hrest : markup.Follows rest) (htail : markup.Follows tail)
    (hsame : text ++ rest = more ++ tail) : nodes = others ∧ rest = tail := by
  induction hnodes generalizing others more rest tail with
  | nil =>
      cases others with
      | nil =>
          cases hothers
          exact ⟨rfl, hsame⟩
      | cons node others =>
          rw [List.nil_append] at hsame
          exact (hothers.not_follows (hsame ▸ hrest)).elim
  | @plain c nodes text hc hnodes ih =>
      cases hothers with
      | nil =>
          rw [List.nil_append] at hsame
          exact ((Content.plain hc hnodes).not_follows (hsame ▸ htail)).elim
      | plain _ hothers =>
          simp only [List.cons_append, List.cons.injEq] at hsame
          obtain ⟨rfl, hsame⟩ := hsame
          obtain ⟨rfl, rfl⟩ := ih hothers hrest htail hsame
          exact ⟨rfl, rfl⟩
      | reference _ _ =>
          simp only [List.cons_append, List.cons.injEq] at hsame
          exact absurd (hsame.1 ▸ hc) markup.amp_not_plain
      | element _ _ _ =>
          simp only [openTag, List.cons_append, List.cons.injEq] at hsame
          exact absurd (hsame.1 ▸ hc) markup.lt_not_plain
  | @reference name c nodes text hname hnodes ih =>
      cases hothers with
      | nil =>
          rw [List.nil_append] at hsame
          exact ((Content.reference hname hnodes).not_follows (hsame ▸ htail)).elim
      | plain hc _ =>
          simp only [List.cons_append, List.cons.injEq] at hsame
          exact absurd (hsame.1 ▸ hc) markup.amp_not_plain
      | reference hname' hothers =>
          simp only [List.cons_append, List.append_assoc, List.cons.injEq, true_and] at hsame
          obtain ⟨rfl, hbehind⟩ := append_cons_inj (markup.semicolon_not_mem hname)
            (markup.semicolon_not_mem hname') hsame
          obtain ⟨rfl, rfl⟩ := ih hothers hrest htail hbehind
          obtain rfl := Option.some.inj (hname.symm.trans hname')
          exact ⟨rfl, rfl⟩
      | element _ _ _ =>
          simp only [openTag, List.cons_append, List.cons.injEq] at hsame
          exact absurd hsame.1 markup.amp_ne_lt
  | @element name children nodes inner text hname hchildren hnodes ihchildren ih =>
      cases hothers with
      | nil =>
          rw [List.nil_append] at hsame
          exact ((Content.element hname hchildren hnodes).not_follows (hsame ▸ htail)).elim
      | plain hc _ =>
          simp only [openTag, List.cons_append, List.cons.injEq] at hsame
          exact absurd (hsame.1 ▸ hc) markup.lt_not_plain
      | reference _ _ =>
          simp only [openTag, List.cons_append, List.cons.injEq] at hsame
          exact absurd hsame.1.symm markup.amp_ne_lt
      | @element name' children' others inner' more hname' hchildren' hothers =>
          -- the names, the contents and what stands behind the elements agree one by one
          simp only [openTag, List.cons_append, List.append_assoc, List.nil_append,
            List.cons.injEq, true_and] at hsame
          obtain ⟨rfl, hinner⟩ := append_cons_inj (markup.gt_not_mem hname)
            (markup.gt_not_mem hname') hsame
          obtain ⟨rfl, hclose⟩ := ihchildren hchildren' (follows_closeTag name _)
            (follows_closeTag name _) hinner
          obtain ⟨rfl, rfl⟩ := ih hothers hrest htail (List.append_cancel_left hclose)
          exact ⟨rfl, rfl⟩

/-- A text is the content of at most one list of nodes. -/
theorem Content.unique {nodes others : List (Node α)} {text : List α}
    (hnodes : markup.Content nodes text) (hothers : markup.Content others text) :
    nodes = others :=
  (hnodes.unique_prefix hothers (.inl rfl) (.inl rfl) rfl).1

end Markup

end Foundation
